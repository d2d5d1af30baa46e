import Mathlib.Data.List.Count
import Mathlib.Data.List.Induction
import WindowsGaming.Library.Runs
import WindowsGaming.GuestAgent
import WindowsGaming.Outbox
import WindowsGaming.SuspendFrames

/- Who waits for the guest to be suspended: control clients, and the task that delays the
   host's own sleep with an inhibitor lock. -/
namespace SuspendWaiters
open Config Protocol Controller Outbox SuspendFrames

def resolved (c : Controller) : SuspendFuture → Bool
  | .ready => true
  | .waiting receiver => decide (.fireSuspend receiver ∈ c.out)

structure Idles (c d : Controller) : Prop where
  senders : d.suspendSenders = c.suspendSenders
  oneshots : c.oneshots ≤ d.oneshots

theorem step_idles {c : Controller} (env : Env) {op : Op}
    (other : op ≠ .suspend ∧ op ≠ .qemuSuspended) : Idles c (step env op c) := by
  have still := step_still (c := c) env other
  exact ⟨still.senders, still.oneshots⟩

def fired (receiver : Nat) (c : Controller) : Nat := c.out.count (.fireSuspend receiver)

structure Orderly (c : Controller) : Prop where
  nodup : c.suspendSenders.Nodup
  made : ∀ r ∈ c.suspendSenders, r < c.oneshots
  unfired : ∀ r ∈ c.suspendSenders, fired r c = 0
  unmade : ∀ r, c.oneshots ≤ r → fired r c = 0
  idle : c.ga = .suspended → c.suspendSenders = []

section Steps
variable {c d : Controller} {op : Op} {r : Nat}

theorem adds_count {es : List Effect} (added : Adds es c d) {e : Effect} (wanted : awaited e = true) :
    d.out.count e = c.out.count e + es.count e := by
  obtain ⟨more, grown, rfl⟩ := added
  rw [grown, List.count_append, List.count_filter wanted]

theorem news_fired (other : op ≠ .qemuSuspended) : (news c op).count (.fireSuspend r) = 0 := by
  apply List.count_eq_zero.mpr
  intro member
  cases mem_news member with
  | fired asked => exact other asked

theorem step_fired (env : Env) (other : op ≠ .qemuSuspended) :
    fired r (step env op c) = fired r c := by
  unfold fired
  rw [adds_count (step_adds env op c) rfl, news_fired other, Nat.add_zero]

theorem suspended_fired (env : Env) :
    fired r (step env .qemuSuspended c) = fired r c + c.suspendSenders.count r := by
  unfold fired
  rw [adds_count (step_adds env .qemuSuspended c) rfl]
  congr 1
  exact List.count_map_of_injective _ _ (fun a b same => by simpa using same) r

theorem suspend_stores (env : Env) (awake : c.ga ≠ .suspended) :
    (step env .suspend c).suspendSenders = c.suspendSenders ++ [c.oneshots] ∧
      (step env .suspend c).oneshots = c.oneshots + 1 ∧
      c.suspend.2 = .waiting c.oneshots := by
  simp only [step, suspend, awake, if_false]
  split <;> exact ⟨rfl, rfl, rfl⟩

theorem suspend_ready (env : Env) (sleeps : c.ga = .suspended) :
    step env .suspend c = c ∧ c.suspend.2 = .ready := by
  simp [step, suspend, sleeps]

theorem falls_suspended (env : Env) (sleeps : (step env op c).ga = .suspended)
    (other : op ≠ .qemuSuspended) : c.ga = .suspended := by
  rw [GuestAgent.step_nextGa] at sleeps
  unfold GuestAgent.nextGa at sleeps
  cases op with
  | qemuSuspended => exact absurd rfl other
  | gaPing => cases ga : c.ga <;> simp [ga] at sleeps ⊢
  | gaHello => cases sleeps
  | gaSuspending => cases sleeps
  | _ =>
    simp only at sleeps
    split at sleeps
    · cases sleeps
    · exact sleeps

theorem orderly_suspend (env : Env) (orderly : Orderly c) : Orderly (step env .suspend c) := by
  by_cases sleeps : c.ga = .suspended
  · rw [(suspend_ready env sleeps).1]
    exact orderly
  · obtain ⟨senders, oneshots, _⟩ := suspend_stores env sleeps
    have same : ∀ r, fired r (step env .suspend c) = fired r c := fun r => step_fired env (by simp)
    constructor
    · rw [senders, List.nodup_append]
      refine ⟨orderly.nodup, by simp, ?_⟩
      intro a stored b new
      rw [List.mem_singleton.mp new]
      exact Nat.ne_of_lt (orderly.made a stored)
    · intro r stored
      rw [senders] at stored
      rw [oneshots]
      rcases List.mem_append.mp stored with old | new
      · exact Nat.lt_succ_of_lt (orderly.made r old)
      · rw [List.mem_singleton.mp new]
        exact Nat.lt_succ_self _
    · intro r stored
      rw [senders] at stored
      rw [same]
      rcases List.mem_append.mp stored with old | new
      · exact orderly.unfired r old
      · rw [List.mem_singleton.mp new]
        exact orderly.unmade _ (Nat.le_refl _)
    · intro r late
      rw [oneshots] at late
      rw [same]
      exact orderly.unmade r (by omega)
    · intro falls
      exact absurd (falls_suspended env falls (by simp)) sleeps

theorem orderly_suspended (env : Env) (orderly : Orderly c) :
    Orderly (step env .qemuSuspended c) where
  nodup := List.nodup_nil
  made := nofun
  unfired := nofun
  unmade := by
    intro r late
    have unstored : r ∉ c.suspendSenders := by
      intro stored
      exact absurd (orderly.made r stored) (Nat.not_lt.mpr late)
    rw [suspended_fired, orderly.unmade r late, List.count_eq_zero.mpr unstored]
  idle := fun _ => rfl

theorem orderly_step (env : Env) (orderly : Orderly c) : Orderly (step env op c) := by
  by_cases asked : op = .suspend
  · subst asked
    exact orderly_suspend env orderly
  · by_cases sleeps : op = .qemuSuspended
    · subst sleeps
      exact orderly_suspended env orderly
    · obtain ⟨senders, oneshots⟩ := step_idles (c := c) env ⟨asked, sleeps⟩
      constructor
      · rw [senders]
        exact orderly.nodup
      · intro r stored
        rw [senders] at stored
        exact Nat.lt_of_lt_of_le (orderly.made r stored) oneshots
      · intro r stored
        rw [senders] at stored
        rw [step_fired env sleeps]
        exact orderly.unfired r stored
      · intro r late
        rw [step_fired env sleeps]
        exact orderly.unmade r (Nat.le_trans oneshots late)
      · intro falls
        rw [senders]
        exact orderly.idle (falls_suspended env falls sleeps)

theorem orderly_new (machine : MachineConfig) (hooks : HooksConfig) (input : Input) :
    Orderly (new machine hooks input) := by
  constructor <;> simp [new, fired]

theorem orderly_operateAll (ls : List (Env × Op)) (orderly : Orderly c) :
    Orderly (operateAll ls c) := by
  induction ls generalizing c with
  | nil => exact orderly
  | cons l ls ih => exact ih (orderly_step l.1 orderly)

structure Released (r : Nat) (c : Controller) : Prop where
  unstored : r ∉ c.suspendSenders
  once : fired r c = 1
  made : r < c.oneshots

theorem released_step (env : Env) (released : Released r c) : Released r (step env op c) := by
  obtain ⟨unstored, once, made⟩ := released
  by_cases sleeps : op = .qemuSuspended
  · subst sleeps
    refine ⟨nofun, ?_, made⟩
    rw [suspended_fired, once, List.count_eq_zero.mpr unstored]
  · have kept : fired r (step env op c) = 1 := (step_fired env sleeps).trans once
    by_cases asked : op = .suspend
    · subst asked
      by_cases ready : c.ga = .suspended
      · rw [(suspend_ready env ready).1]
        exact ⟨unstored, once, made⟩
      · obtain ⟨senders, oneshots, _⟩ := suspend_stores env ready
        refine ⟨?_, kept, by omega⟩
        rw [senders]
        intro stored
        rcases List.mem_append.mp stored with old | new
        · exact unstored old
        · rw [List.mem_singleton.mp new] at made
          omega
    · obtain ⟨senders, oneshots⟩ := step_idles (c := c) env ⟨asked, sleeps⟩
      refine ⟨?_, kept, by omega⟩
      rw [senders]
      exact unstored

theorem stored_step (env : Env) (stored : r ∈ c.suspendSenders) (other : op ≠ .qemuSuspended) :
    r ∈ (step env op c).suspendSenders := by
  by_cases asked : op = .suspend
  · subst asked
    by_cases ready : c.ga = .suspended
    · rw [(suspend_ready env ready).1]
      exact stored
    · rw [(suspend_stores env ready).1]
      exact List.mem_append_left _ stored
  · rw [(step_idles (c := c) env ⟨asked, other⟩).senders]
    exact stored

theorem stored_released (env : Env) (orderly : Orderly c) (stored : r ∈ c.suspendSenders) :
    Released r (step env .qemuSuspended c) := by
  refine ⟨nofun, ?_, orderly.made r stored⟩
  rw [suspended_fired, orderly.unfired r stored, List.count_eq_one_of_mem orderly.nodup stored]

theorem released_operateAll {ls : List (Env × Op)} (released : Released r c) :
    Released r (operateAll ls c) := by
  induction ls generalizing c with
  | nil => exact released
  | cons l ls ih => exact ih (released_step l.1 released)

def suspends (ls : List (Env × Op)) : Prop := .qemuSuspended ∈ ls.map Prod.snd

instance : DecidablePred suspends := fun _ => inferInstanceAs (Decidable (_ ∈ _))

theorem suspends_cons (l : Env × Op) (ls : List (Env × Op)) :
    suspends (l :: ls) ↔ l.2 = .qemuSuspended ∨ suspends ls := by
  unfold suspends
  rw [List.map_cons, List.mem_cons]
  exact or_congr_left eq_comm

theorem stored_operateAll (ls : List (Env × Op)) (orderly : Orderly c)
    (stored : r ∈ c.suspendSenders) :
    if suspends ls then Released r (operateAll ls c) else r ∈ (operateAll ls c).suspendSenders := by
  induction ls generalizing c with
  | nil => exact stored
  | cons l ls ih =>
    obtain ⟨env, op⟩ := l
    by_cases sleeps : op = .qemuSuspended
    · subst sleeps
      rw [if_pos ((suspends_cons _ ls).mpr (Or.inl rfl)), operateAll_cons]
      exact released_operateAll (stored_released env orderly stored)
    · have rest := ih (orderly_step env orderly) (stored_step env stored sleeps)
      have same : suspends ((env, op) :: ls) ↔ suspends ls := by
        simp [suspends_cons, sleeps]
      rw [if_congr same rfl rfl]
      exact rest

end Steps

/-- How one call of `suspend` is served: `c` is the state at the call, `d` the state after the
    call and the operations that follow it. -/
structure Served (c d : Controller) (later : List (Env × Op)) : Prop where
  resolves : resolved d c.suspend.2 = true ↔ c.ga = .suspended ∨ suspends later
  fired : ∀ r, c.suspend.2 = .waiting r → fired r d = if suspends later then 1 else 0
  stored : ∀ r, c.suspend.2 = .waiting r → (r ∈ d.suspendSenders ↔ ¬ suspends later)

theorem resolved_waiting (r : Nat) (c : Controller) :
    resolved c (.waiting r) = true ↔ fired r c ≠ 0 := by
  simp [resolved, fired, List.count_eq_zero]

theorem call_served {c : Controller} (env : Env) (later : List (Env × Op)) (orderly : Orderly c) :
    Served c (operateAll later (step env .suspend c)) later := by
  by_cases sleeps : c.ga = .suspended
  · have ready := (suspend_ready env sleeps).2
    refine ⟨?_, ?_, ?_⟩
    · simp [ready, resolved, sleeps]
    · intro r waits
      rw [ready] at waits
      cases waits
    · intro r waits
      rw [ready] at waits
      cases waits
  · obtain ⟨senders, _, waits⟩ := suspend_stores env sleeps
    have stored : c.oneshots ∈ (step env .suspend c).suspendSenders := by simp [senders]
    have orderly : Orderly (step env .suspend c) := orderly_step env orderly
    have fate := stored_operateAll later orderly stored
    have orderly := orderly_operateAll later orderly
    generalize operateAll later (step env .suspend c) = d at fate orderly
    by_cases slept : suspends later
    · rw [if_pos slept] at fate
      refine ⟨?_, ?_, ?_⟩
      · simp [waits, resolved_waiting, fate.once, slept]
      · intro r same
        cases waits.symm.trans same
        rw [if_pos slept]
        exact fate.once
      · intro r same
        cases waits.symm.trans same
        simp [fate.unstored, slept]
    · rw [if_neg slept] at fate
      have unfired := orderly.unfired _ fate
      refine ⟨?_, ?_, ?_⟩
      · simp [waits, resolved_waiting, unfired, slept, sleeps]
      · intro r same
        cases waits.symm.trans same
        rw [if_neg slept]
        exact unfired
      · intro r same
        cases waits.symm.trans same
        simp [fate, slept]

inductive DbusItem where
  | prepareForSleep (starting : Bool)
  | other
  deriving DecidableEq, Repr

structure Inhibitor where
  controller : Controller
  items : List DbusItem
  /-- The future of the callback, `suspend`, while the task waits for it. -/
  callback : Option SuspendFuture
  fd : Bool
  running : Bool
  deriving DecidableEq, Repr

def Inhibitor.start (machine : MachineConfig) (hooks : HooksConfig) (input : Input) : Inhibitor :=
  { controller := new machine hooks input
    items := []
    callback := none
    fd := true
    running := true }

def stored (c : Controller) : SuspendFuture → Bool
  | .ready => false
  | .waiting receiver => decide (receiver ∈ c.suspendSenders)

/-- One turn of the task, which handles one item after the other. A callback whose sender was
    dropped fails, and ends the task. -/
def Inhibitor.poll (s : Inhibitor) : Option Inhibitor :=
  if s.running then
    match s.callback with
    | some future =>
      if resolved s.controller future then some { s with callback := none, fd := false }
      else if stored s.controller future then none
      else some { s with callback := none, fd := false, running := false }
    | none =>
      match s.items with
      | [] => none
      | .prepareForSleep true :: items =>
        let (controller, future) := s.controller.suspend
        some { s with controller, items, callback := some future }
      | .prepareForSleep false :: items => some { s with items, fd := true }
      | .other :: items => some { s with items }
  else none

inductive Event where
  | signal (item : DbusItem)
  | poll
  | call (env : Env) (op : Op)

def inhibitorStep (s : Inhibitor) : Event → Option Inhibitor
  | .signal item => some { s with items := s.items ++ [item] }
  | .poll => s.poll
  | .call env op => some { s with controller := step env op s.controller }

/-- The last thing the task did was to call `suspend` for a PrepareForSleep(true), and the
    guest was suspended then or has been since. -/
def SawSuspend (start : Inhibitor) (es : List Event) : Prop :=
  ∃ before later found, es = before ++ .poll :: later ∧
    Runs.run inhibitorStep start before = some found ∧
    found.callback = none ∧ found.items.head? = some (.prepareForSleep true) ∧ .poll ∉ later ∧
    (found.controller.ga = .suspended ∨ ∃ env, .call env .qemuSuspended ∈ later)

def Asked (start : Inhibitor) (es : List Event) (s : Inhibitor) (future : SuspendFuture) : Prop :=
  ∃ before later found, es = before ++ .poll :: later ∧
    Runs.run inhibitorStep start before = some found ∧
    found.callback = none ∧ found.items.head? = some (.prepareForSleep true) ∧ .poll ∉ later ∧
    match future with
    | .ready => found.controller.ga = .suspended
    | .waiting r => (∃ env, .call env .qemuSuspended ∈ later) ∧ Released r s.controller ∨
        r ∈ s.controller.suspendSenders

structure Faithful (start : Inhibitor) (es : List Event) (s : Inhibitor) : Prop where
  orderly : Orderly s.controller
  asked : ∀ future, s.callback = some future → Asked start es s future

section Inhibiting
variable {start s t : Inhibitor} {es : List Event}

theorem asked_later {future : SuspendFuture} {e : Event} (asked : Asked start es s future)
    (other : e ≠ .poll) (released : ∀ r, Released r s.controller → Released r t.controller)
    (stored : ∀ r ∈ s.controller.suspendSenders,
      (∃ env, e = .call env .qemuSuspended) ∧ Released r t.controller ∨
        r ∈ t.controller.suspendSenders) :
    Asked start (es ++ [e]) t future := by
  obtain ⟨before, later, found, rfl, reached, idle, item, unpolled, fate⟩ := asked
  have still : .poll ∉ later ++ [e] := by simp [unpolled, Ne.symm other]
  refine ⟨before, later ++ [e], found, by simp, reached, idle, item, still, ?_⟩
  cases future with
  | ready => exact fate
  | waiting r =>
    rcases fate with ⟨⟨env, slept⟩, done⟩ | waits
    · exact Or.inl ⟨⟨env, List.mem_append_left _ slept⟩, released r done⟩
    · rcases stored r waits with ⟨⟨env, rfl⟩, done⟩ | waits
      · exact Or.inl ⟨⟨env, by simp⟩, done⟩
      · exact Or.inr waits

theorem asked_call {future : SuspendFuture} (env : Env) (op : Op) (orderly : Orderly s.controller)
    (asked : Asked start es s future) :
    Asked start (es ++ [.call env op]) { s with controller := step env op s.controller } future := by
  refine asked_later asked (by simp) ?_ ?_
  · exact fun r done => released_step env done
  · intro r waits
    by_cases sleeps : op = .qemuSuspended
    · subst sleeps
      exact Or.inl ⟨⟨env, rfl⟩, stored_released env orderly waits⟩
    · exact Or.inr (stored_step env waits sleeps)

theorem asked_signal {future : SuspendFuture} (item : DbusItem) (asked : Asked start es s future) :
    Asked start (es ++ [.signal item]) { s with items := s.items ++ [item] } future :=
  asked_later asked (by simp) (fun _ done => done) fun _ waits => Or.inr waits

theorem asked_poll {items : List DbusItem} (reached : Runs.run inhibitorStep start es = some s)
    (idle : s.callback = none) (head : s.items = .prepareForSleep true :: items) :
    Asked start (es ++ [.poll])
      { s with controller := s.controller.suspend.1, items, callback := some s.controller.suspend.2 }
      s.controller.suspend.2 := by
  refine ⟨es, [], s, rfl, reached, idle, by rw [head]; rfl, by simp, ?_⟩
  by_cases sleeps : s.controller.ga = .suspended
  · rw [(suspend_ready .bare sleeps).2]
    exact sleeps
  · obtain ⟨senders, _, waits⟩ := suspend_stores .bare sleeps
    rw [waits]
    refine Or.inr ?_
    change _ ∈ (step .bare .suspend s.controller).suspendSenders
    rw [senders]
    simp

theorem faithful_step {e : Event} (reached : Runs.run inhibitorStep start es = some s)
    (faithful : Faithful start es s) (taken : inhibitorStep s e = some t) :
    Faithful start (es ++ [e]) t := by
  obtain ⟨orderly, asked⟩ := faithful
  cases e with
  | signal item =>
    cases taken
    exact ⟨orderly, fun future waits => asked_signal item (asked future waits)⟩
  | call env op =>
    cases taken
    exact ⟨orderly_step env orderly,
      fun future waits => asked_call env op orderly (asked future waits)⟩
  | poll =>
    simp only [inhibitorStep, Inhibitor.poll] at taken
    split at taken
    · split at taken
      · split at taken
        · cases taken
          exact ⟨orderly, nofun⟩
        · split at taken
          · cases taken
          · cases taken
            exact ⟨orderly, nofun⟩
      · rename_i idle
        split at taken
        · cases taken
        · rename_i items head
          cases taken
          refine ⟨orderly_suspend .bare orderly, ?_⟩
          rintro future ⟨⟩
          exact asked_poll reached idle head
        · cases taken
          exact ⟨orderly, fun future waits => by cases idle.symm.trans waits⟩
        · cases taken
          exact ⟨orderly, fun future waits => by cases idle.symm.trans waits⟩
    · cases taken

theorem faithful_run (machine : MachineConfig) (hooks : HooksConfig) (input : Input)
    (reached : Runs.run inhibitorStep (.start machine hooks input) es = some s) :
    Faithful (.start machine hooks input) es s := by
  induction es using List.reverseRecOn generalizing s with
  | nil =>
    cases reached
    exact ⟨orderly_new machine hooks input, nofun⟩
  | append_singleton es e ih =>
    rw [Runs.run_concat] at reached
    obtain ⟨u, before, taken⟩ := Option.bind_eq_some_iff.mp reached
    exact faithful_step before (ih before) taken

theorem sawSuspend_of_asked {future : SuspendFuture} (orderly : Orderly s.controller)
    (asked : Asked start es s future) :
    (resolved s.controller future = true → SawSuspend start es) ∧
      (resolved s.controller future = true ∨ stored s.controller future = true) := by
  obtain ⟨before, later, found, rfl, reached, idle, head, unpolled, fate⟩ := asked
  cases future with
  | ready =>
    exact ⟨fun _ => ⟨before, later, found, rfl, reached, idle, head, unpolled, Or.inl fate⟩,
      Or.inl rfl⟩
  | waiting r =>
    rw [resolved_waiting]
    rcases fate with ⟨slept, released⟩ | waits
    · refine ⟨fun _ => ⟨before, later, found, rfl, reached, idle, head, unpolled, Or.inr slept⟩,
        Or.inl ?_⟩
      rw [released.once]
      exact Nat.one_ne_zero
    · exact ⟨fun fires => absurd (orderly.unfired r waits) fires,
        Or.inr (by simpa [stored] using waits)⟩

theorem releases_after_suspend {e : Event} (faithful : Faithful start es s)
    (taken : inhibitorStep s e = some t) (held : s.fd = true) (free : t.fd = false) :
    SawSuspend start es := by
  cases e with
  | signal item =>
    cases taken
    exact absurd (held.symm.trans free) (by simp)
  | call env op =>
    cases taken
    exact absurd (held.symm.trans free) (by simp)
  | poll =>
    simp only [inhibitorStep, Inhibitor.poll] at taken
    split at taken
    · split at taken
      · rename_i future waits
        obtain ⟨saw, kept⟩ := sawSuspend_of_asked faithful.orderly (faithful.asked future waits)
        split at taken
        · rename_i done
          exact saw done
        · rename_i pending
          rcases kept with done | waiting
          · exact absurd done pending
          · rw [if_pos waiting] at taken
            cases taken
      · split at taken
        · cases taken
        · cases taken
          exact absurd (held.symm.trans free) (by simp)
        · cases taken
          cases free
        · cases taken
          exact absurd (held.symm.trans free) (by simp)
    · cases taken

end Inhibiting

/-- No waiter is left behind, fired early or fired twice, and the inhibitor lock is released
    only once the guest was seen suspended. -/
theorem suspend_waiters_released (machine : MachineConfig) (hooks : HooksConfig) (input : Input) :
    (∀ ls, (operateAll ls (new machine hooks input)).ga = .suspended →
      (operateAll ls (new machine hooks input)).suspendSenders = []) ∧
    (∀ before env later, Served (operateAll before (new machine hooks input))
      (operateAll (before ++ (env, .suspend) :: later) (new machine hooks input)) later) ∧
    ∀ es e s t, Runs.run inhibitorStep (.start machine hooks input) es = some s →
      inhibitorStep s e = some t → s.fd = true → t.fd = false →
        SawSuspend (.start machine hooks input) es := by
  have orderly : ∀ ls, Orderly (operateAll ls (new machine hooks input)) :=
    fun ls => orderly_operateAll ls (orderly_new machine hooks input)
  refine ⟨fun ls => (orderly ls).idle, ?_, ?_⟩
  · intro before env later
    rw [operateAll_append, operateAll_cons]
    exact call_served env later (orderly before)
  · intro es e s t reached taken held free
    exact releases_after_suspend (faithful_run machine hooks input reached) taken held free

theorem lock_released_in_turn :
    SawSuspend (.start .bare .bare (Input.new .bare))
      [.signal (.prepareForSleep true), .call .bare .gaHello, .poll, .call .bare .suspend,
        .call .bare .qemuSuspended] :=
  (suspend_waiters_released .bare .bare (Input.new .bare)).2.2 _ .poll _ _ rfl rfl rfl rfl

end SuspendWaiters
