import Mathlib.Data.List.Basic
import WindowsGaming.Library.Runs

/- The task that lets libinput read the devices. Its descriptor is edge triggered: tokio learns of new
   data once, remembers that the descriptor is ready and wakes the task, and it is the task that says
   when nothing is left to read. Everything runs on one thread, so tokio's driver and the controller
   come in between two polls only, the devices at any time. -/
namespace InputListener

inductive Phase where
  | pending
  | checking
  | dispatching
  | rechecking
  | clearing
  | draining
  | failed
  deriving DecidableEq, Repr

structure Listener (D R E : Type) where
  device : D
  unread : List R
  /-- The kernel has an edge tokio's driver has not picked up. -/
  edge : Bool
  /-- The readiness the `AsyncFd` remembers. -/
  ready : Bool
  phase : Phase
  queue : List E
  sent : List E
  made : List E
  /-- Those the controller has caused since the queue was last drained. -/
  caused : List E
  deriving DecidableEq, Repr

inductive Label (D R E : Type) where
  | arrive (r : R)
  | spurious
  | turn
  /-- The task is polled since the descriptor is ready. -/
  | wake
  | poll
  | check
  /-- tokio's budget for one poll is used up. -/
  | outOfBudget
  | dispatch (n : Nat)
  | fail
  | recheck
  | clearReady
  | drain
  /-- `Input::suspend` takes all devices out of libinput, which says so in its queue. -/
  | suspend (device : D) (queued : List E)
  | resume (device : D) (queued : List E)
  deriving DecidableEq, Repr

section Steps
variable {D R E : Type} (libinput : D → R → List E × D)

def new (device : D) : Listener D R E := ⟨device, [], false, false, .checking, [], [], [], []⟩

def digest (d : D) : List R → List E × D
  | [] => ([], d)
  | r :: rs =>
    let (es, next) := libinput d r
    let (more, last) := digest next rs
    (es ++ more, last)

def cause (device : D) (queued : List E) (s : Listener D R E) : Listener D R E :=
  { s with
    device
    queue := s.queue ++ queued
    made := s.made ++ queued
    caused := s.caused ++ queued }

def step (s : Listener D R E) : Label D R E → Option (Listener D R E)
  | .arrive r => some { s with unread := s.unread ++ [r], edge := true }
  | .spurious => some { s with edge := true }
  | .turn =>
    if s.phase = .pending ∧ s.edge = true then some { s with edge := false, ready := true } else none
  | .wake => if s.phase = .pending ∧ s.ready = true then some { s with phase := .checking } else none
  | .poll => if s.phase = .pending then some { s with phase := .checking } else none
  | .check =>
    if s.phase = .checking then
      some { s with phase := if s.ready then .dispatching else .pending }
    else none
  | .outOfBudget => if s.phase = .checking then some { s with phase := .pending } else none
  | .dispatch n =>
    -- it may leave something unread, but reads something if there is something
    if s.phase = .dispatching ∧ n ≤ s.unread.length ∧ (n = 0 → s.unread = []) then
      let (es, device) := digest libinput s.device (s.unread.take n)
      some { s with
        device
        unread := s.unread.drop n
        phase := .rechecking
        queue := s.queue ++ es
        made := s.made ++ es }
    else none
  | .fail => if s.phase = .dispatching then some { s with phase := .failed } else none
  | .recheck =>
    if s.phase = .rechecking then
      some { s with phase := if s.unread = [] then .clearing else .draining }
    else none
  | .clearReady =>
    if s.phase = .clearing then some { s with phase := .draining, ready := false } else none
  | .drain =>
    if s.phase = .draining then
      some { s with phase := .checking, queue := [], sent := s.sent ++ s.queue, caused := [] }
    else none
  | .suspend device queued =>
    if s.phase = .pending then some { cause device queued s with unread := [] } else none
  | .resume device queued => if s.phase = .pending then some (cause device queued s) else none

/-- The steps of tokio, libinput and the task, when no more input arrives. -/
def own : Label D R E → Bool
  | .turn | .wake | .check | .dispatch _ | .recheck | .clearReady | .drain => true
  | _ => false

def Busy (s : Listener D R E) : Prop :=
  s.edge = true ∨ s.ready = true ∨ s.phase = .draining

def weight (s : Listener D R E) : Nat :=
  8 * s.unread.length + 10 * s.edge.toNat +
    match s.phase with
    | .pending => 7 * s.ready.toNat
    | .checking => 1 + 5 * s.ready.toNat
    | .dispatching => 5
    | .rechecking => if s.unread = [] then 4 else 8
    | .clearing => 3
    | .draining => 2 + 5 * s.ready.toNat
    | .failed => 0

structure Sound (s : Listener D R E) : Prop where
  once : s.sent ++ s.queue = s.made
  drained : s.phase = .pending ∨ s.phase = .checking → s.queue = s.caused
  known : s.unread ≠ [] → s.edge = true ∨ s.ready = true ∧ s.phase ≠ .clearing
  reading : s.phase = .dispatching ∨ s.phase = .rechecking ∨ s.phase = .clearing → s.ready = true

end Steps

section Invariant
variable {D R E : Type} {libinput : D → R → List E × D} {s t : Listener D R E}

theorem sound_new (device : D) : Sound (new device : Listener D R E) :=
  ⟨rfl, fun _ => rfl, by simp [new], by simp [new]⟩

theorem sound_cause {device : D} {queued : List E} (unread : List R) (sound : Sound s)
    (known : unread ≠ [] → s.unread ≠ []) : Sound { cause device queued s with unread } := by
  refine ⟨?_, ?_, fun left => sound.known (known left), sound.reading⟩
  · rw [cause, ← List.append_assoc, sound.once]
  · intro between
    rw [cause, sound.drained between]

theorem sound_dispatch {n : Nat} (sound : Sound s) (taken : step libinput s (.dispatch n) = some t) :
    Sound t := by
  simp only [step, Option.ite_none_right_eq_some, Option.some.injEq] at taken
  obtain ⟨⟨dispatching, -, -⟩, rfl⟩ := taken
  refine ⟨?_, by simp, ?_, fun _ => sound.reading (Or.inl dispatching)⟩
  · rw [← List.append_assoc, sound.once]
  · exact fun _ => Or.inr ⟨sound.reading (Or.inl dispatching), by simp⟩

theorem sound_drain (sound : Sound s) (taken : step libinput s .drain = some t) : Sound t := by
  simp only [step, Option.ite_none_right_eq_some, Option.some.injEq] at taken
  obtain ⟨draining, rfl⟩ := taken
  refine ⟨?_, fun _ => rfl, ?_, by simp⟩
  · rw [List.append_nil, sound.once]
  · intro left
    rcases sound.known left with edge | ⟨ready, -⟩
    · exact Or.inl edge
    · exact Or.inr ⟨ready, by simp⟩

theorem sound_phase {phase : Phase} (sound : Sound s)
    (drained : phase = .pending ∨ phase = .checking → s.phase = .pending ∨ s.phase = .checking)
    (known : s.unread ≠ [] → s.ready = true → s.edge = true ∨ phase ≠ .clearing)
    (reading : phase = .dispatching ∨ phase = .rechecking ∨ phase = .clearing → s.ready = true) :
    Sound { s with phase } := by
  refine ⟨sound.once, fun between => sound.drained (drained between), ?_, reading⟩
  intro left
  rcases sound.known left with edge | ⟨ready, -⟩
  · exact Or.inl edge
  · rcases known left ready with edge | other
    · exact Or.inl edge
    · exact Or.inr ⟨ready, other⟩

theorem sound_check (sound : Sound s) (taken : step libinput s .check = some t) : Sound t := by
  simp only [step, Option.ite_none_right_eq_some, Option.some.injEq] at taken
  obtain ⟨checking, rfl⟩ := taken
  by_cases ready : s.ready = true
  · rw [if_pos ready]
    exact sound_phase sound (by simp) (by simp) (fun _ => ready)
  · rw [if_neg ready]
    exact sound_phase sound (fun _ => Or.inr checking) (by simp) (by simp)

theorem sound_recheck (sound : Sound s) (taken : step libinput s .recheck = some t) : Sound t := by
  simp only [step, Option.ite_none_right_eq_some, Option.some.injEq] at taken
  obtain ⟨rechecking, rfl⟩ := taken
  have ready := sound.reading (Or.inr (Or.inl rechecking))
  by_cases finished : s.unread = []
  · rw [if_pos finished]
    exact sound_phase sound (by simp) (fun left => absurd finished left) (fun _ => ready)
  · rw [if_neg finished]
    exact sound_phase sound (by simp) (by simp) (by simp)

theorem sound_clearReady (sound : Sound s) (taken : step libinput s .clearReady = some t) :
    Sound t := by
  simp only [step, Option.ite_none_right_eq_some, Option.some.injEq] at taken
  obtain ⟨clearing, rfl⟩ := taken
  refine ⟨sound.once, by simp, ?_, by simp⟩
  intro left
  rcases sound.known left with edge | ⟨-, other⟩
  · exact Or.inl edge
  · exact absurd clearing other

theorem sound_turn (sound : Sound s) (taken : step libinput s .turn = some t) : Sound t := by
  simp only [step, Option.ite_none_right_eq_some, Option.some.injEq] at taken
  obtain ⟨⟨pending, -⟩, rfl⟩ := taken
  exact ⟨sound.once, sound.drained, fun _ => Or.inr ⟨rfl, by simp [pending]⟩, fun _ => rfl⟩

theorem sound_step {l : Label D R E} (sound : Sound s) (taken : step libinput s l = some t) :
    Sound t := by
  cases l with
  | arrive r =>
    cases taken
    exact ⟨sound.once, sound.drained, fun _ => Or.inl rfl, sound.reading⟩
  | spurious =>
    cases taken
    exact ⟨sound.once, sound.drained, fun _ => Or.inl rfl, sound.reading⟩
  | turn => exact sound_turn sound taken
  | wake =>
    simp only [step, Option.ite_none_right_eq_some, Option.some.injEq] at taken
    obtain ⟨⟨pending, -⟩, rfl⟩ := taken
    exact sound_phase sound (fun _ => Or.inl pending) (by simp) (by simp)
  | poll =>
    simp only [step, Option.ite_none_right_eq_some, Option.some.injEq] at taken
    obtain ⟨pending, rfl⟩ := taken
    exact sound_phase sound (fun _ => Or.inl pending) (by simp) (by simp)
  | check => exact sound_check sound taken
  | outOfBudget =>
    simp only [step, Option.ite_none_right_eq_some, Option.some.injEq] at taken
    obtain ⟨checking, rfl⟩ := taken
    exact sound_phase sound (fun _ => Or.inr checking) (by simp) (by simp)
  | dispatch n => exact sound_dispatch sound taken
  | fail =>
    simp only [step, Option.ite_none_right_eq_some, Option.some.injEq] at taken
    obtain ⟨-, rfl⟩ := taken
    exact sound_phase sound (by simp) (by simp) (by simp)
  | recheck => exact sound_recheck sound taken
  | clearReady => exact sound_clearReady sound taken
  | drain => exact sound_drain sound taken
  | suspend device queued =>
    simp only [step, Option.ite_none_right_eq_some, Option.some.injEq] at taken
    obtain ⟨-, rfl⟩ := taken
    exact sound_cause [] sound (by simp)
  | resume device queued =>
    simp only [step, Option.ite_none_right_eq_some, Option.some.injEq] at taken
    obtain ⟨-, rfl⟩ := taken
    exact sound_cause s.unread sound id

theorem own_step {l : Label D R E} (mine : own l = true) (sound : Sound s)
    (taken : step libinput s l = some t) :
    weight t < weight s ∧ (s.phase ≠ .failed → t.phase ≠ .failed) ∧
      (s.caused = [] ∨ Busy s → t.caused = [] ∨ Busy t) := by
  cases l with
  | turn =>
    simp only [step, Option.ite_none_right_eq_some, Option.some.injEq] at taken
    obtain ⟨⟨pending, edge⟩, rfl⟩ := taken
    refine ⟨?_, id, fun _ => Or.inr (Or.inr (Or.inl rfl))⟩
    simp only [weight, pending, edge, Bool.toNat_true, Bool.toNat_false]
    omega
  | wake =>
    simp only [step, Option.ite_none_right_eq_some, Option.some.injEq] at taken
    obtain ⟨⟨pending, ready⟩, rfl⟩ := taken
    refine ⟨?_, by simp, fun _ => Or.inr (Or.inr (Or.inl ready))⟩
    simp only [weight, pending, ready, Bool.toNat_true]
    omega
  | check =>
    simp only [step, Option.ite_none_right_eq_some, Option.some.injEq] at taken
    obtain ⟨checking, rfl⟩ := taken
    by_cases ready : s.ready = true
    · refine ⟨?_, by simp [ready], fun _ => Or.inr (Or.inr (Or.inl ready))⟩
      simp only [weight, checking, ready, if_true, Bool.toNat_true]
      omega
    · have idle : s.ready = false := Bool.not_eq_true _ ▸ ready
      refine ⟨?_, by simp [idle], ?_⟩
      · simp only [weight, checking, idle, Bool.false_eq_true, if_false, Bool.toNat_false]
        omega
      · rintro (none_caused | edge | absent | draining)
        · exact Or.inl none_caused
        · exact Or.inr (Or.inl edge)
        · exact absurd absent ready
        · simp [checking] at draining
  | dispatch n =>
    simp only [step, Option.ite_none_right_eq_some, Option.some.injEq] at taken
    obtain ⟨⟨dispatching, inside, some_read⟩, rfl⟩ := taken
    have ready := sound.reading (Or.inl dispatching)
    refine ⟨?_, by simp, fun _ => Or.inr (Or.inr (Or.inl ready))⟩
    simp only [weight, dispatching, List.length_drop]
    by_cases all : s.unread.drop n = []
    · rw [if_pos all]
      omega
    · have read : n ≠ 0 := by
        rintro rfl
        exact all (by rw [some_read rfl, List.drop_nil])
      rw [if_neg all]
      omega
  | recheck =>
    simp only [step, Option.ite_none_right_eq_some, Option.some.injEq] at taken
    obtain ⟨rechecking, rfl⟩ := taken
    have ready := sound.reading (Or.inr (Or.inl rechecking))
    refine ⟨?_, ?_, fun _ => Or.inr (Or.inr (Or.inl ready))⟩
    · by_cases finished : s.unread = []
      · simp only [weight, rechecking, if_pos finished]
        omega
      · simp only [weight, rechecking, if_neg finished, ready, Bool.toNat_true]
        omega
    · by_cases finished : s.unread = [] <;> simp [finished]
  | clearReady =>
    simp only [step, Option.ite_none_right_eq_some, Option.some.injEq] at taken
    obtain ⟨clearing, rfl⟩ := taken
    refine ⟨?_, by simp, fun _ => Or.inr (Or.inr (Or.inr rfl))⟩
    simp only [weight, clearing, Bool.toNat_false]
    omega
  | drain =>
    simp only [step, Option.ite_none_right_eq_some, Option.some.injEq] at taken
    obtain ⟨draining, rfl⟩ := taken
    refine ⟨?_, by simp, fun _ => Or.inl rfl⟩
    simp only [weight, draining]
    omega
  | _ => cases mine

theorem asleep_of_resting (alive : s.phase ≠ .failed)
    (resting : ∀ l, own l = true → step libinput s l = none) :
    s.phase = .pending ∧ s.edge = false ∧ s.ready = false := by
  cases phase : s.phase with
  | pending =>
    have no_turn := resting .turn rfl
    have no_wake := resting .wake rfl
    simp only [step, phase, true_and, ite_eq_right_iff, reduceCtorEq, imp_false,
      Bool.not_eq_true] at no_turn no_wake
    exact ⟨rfl, no_turn, no_wake⟩
  | checking => simpa [step, phase] using resting .check rfl
  | dispatching =>
    have enabled := resting (.dispatch s.unread.length) rfl
    simp [step, phase] at enabled
  | rechecking => simpa [step, phase] using resting .recheck rfl
  | clearing => simpa [step, phase] using resting .clearReady rfl
  | draining => simpa [step, phase] using resting .drain rfl
  | failed => exact absurd phase alive

end Invariant

section Result
variable {D R E : Type} (libinput : D → R → List E × D)

structure Served (s : Listener D R E) : Prop where
  once : s.sent ++ s.queue = s.made
  /-- Only what the controller has caused may wait with the task asleep. -/
  drained : s.phase = .pending → s.queue = s.caused
  attentive : s.phase = .pending → s.edge = false → s.ready = false → s.unread = []
  settles : Runs.ComesToRest (step libinput) (fun l => own l = true) (weight s)
    (fun t => s.phase ≠ .failed →
      t.phase = .pending ∧ t.unread = [] ∧ (Busy s → t.sent = t.made)) s

theorem served_of_sound {s : Listener D R E} (sound : Sound s) : Served libinput s := by
  refine ⟨sound.once, fun pending => sound.drained (Or.inl pending), ?_, ?_⟩
  · intro _ quiet idle
    by_contra left
    rcases sound.known left with edge | ⟨ready, -⟩
    · simp [quiet] at edge
    · simp [idle] at ready
  · let Going (u : Listener D R E) : Prop :=
      Sound u ∧ (s.phase ≠ .failed → u.phase ≠ .failed) ∧ (Busy s → u.caused = [] ∨ Busy u)
    have going : ∀ u l v, Going u → own l = true → step libinput u l = some v → Going v := by
      intro u l v ⟨sound, alive, pushed⟩ mine taken
      obtain ⟨-, still, on⟩ := own_step mine sound taken
      exact ⟨sound_step sound taken, still ∘ alive, fun busy => on (pushed busy)⟩
    have lighter : ∀ u l v, Going u → own l = true → step libinput u l = some v →
        weight v < weight u := fun _ _ _ inv mine taken => (own_step mine inv.1 taken).1
    refine Runs.comesToRest going lighter ?_ s ⟨sound, id, Or.inr⟩
    rintro t ⟨last, still, sent⟩ resting alive
    obtain ⟨pending, quiet, idle⟩ := asleep_of_resting (still alive) resting
    refine ⟨pending, ?_, ?_⟩
    · by_contra left
      rcases last.known left with edge | ⟨ready, -⟩
      · simp [quiet] at edge
      · simp [idle] at ready
    · intro busy
      rcases sent busy with none_caused | edge | ready | draining
      · rw [← last.once, last.drained (Or.inl pending), none_caused, List.append_nil]
      · simp [quiet] at edge
      · simp [idle] at ready
      · simp [pending] at draining

/-- However input arrives, libinput reads and the controller comes in between: events are sent once
    and in order, the task never sleeps over unread input, and left alone it soon has sent all that
    there was to send when it had anything to do. -/
theorem input_served (device : D) (ls : List (Label D R E)) :
    Runs.Always (step libinput) (Served libinput) (new device) ls :=
  Runs.always_mono (fun _ => served_of_sound libinput)
    (Runs.always_of_preserved Sound (fun _ _ _ => sound_step) (sound_new device) ls)

end Result

/-- What libinput queues while its devices are taken away waits for the next input. -/
example :
    ((Runs.run (step fun (_ : Unit) (r : Nat) => ([r], ())) (new ())
      [.check, .arrive 1, .turn, .wake, .check, .dispatch 1, .recheck, .clearReady, .drain, .check,
        .suspend () [2], .poll, .check]).map fun s => (s.phase, s.queue, s.sent)) =
      some (.pending, [2], [1]) := by
  decide +kernel

end InputListener
