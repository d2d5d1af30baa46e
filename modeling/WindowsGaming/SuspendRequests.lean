import Mathlib.Data.List.Count
import WindowsGaming.Library.Runs
import WindowsGaming.SuspendFrames

/- How often the guest agent is told to suspend the guest. The controller decides from the guest
   agent's state, which changes only when the guest reports back. -/
namespace SuspendRequests
open Config Protocol Controller SuspendFrames

/-- The controller since the guest was last suspended or its agent last started. -/
structure Session where
  controller : Controller
  mark : Nat
  /-- A call of `suspend` found the guest neither suspended nor suspending. -/
  asked : Bool
  /-- A call found the guest agent up, before the guest was suspending of its own. -/
  awake : Bool
  suspending : Bool
  deriving DecidableEq, Repr

def start (machine : MachineConfig) (hooks : HooksConfig) (input : Input) : Session :=
  ⟨new machine hooks input, 0, false, false, false⟩

def writes (c : Controller) (op : Op) : Bool := op = .suspend ∧ c.ga ≠ .suspended ∧ c.ga ≠ .suspending

def wakeful (c : Controller) (op : Op) : Bool := op = .suspend ∧ (c.ga = .up ∨ c.ga = .pinging)

def begins (op : Op) : Bool := op = .gaHello ∨ op = .qemuSuspended

def sessionStep (s : Session) (l : Env × Op) : Option Session :=
  let controller := step l.1 l.2 s.controller
  if begins l.2 then some ⟨controller, controller.out.length, false, false, false⟩
  else some
    { controller
      mark := s.mark
      asked := s.asked || writes s.controller l.2
      awake := s.awake || (wakeful s.controller l.2 && !s.suspending)
      suspending := s.suspending || l.2 = .gaSuspending }

def Session.written (s : Session) : Nat := (s.controller.out.drop s.mark).count (.clientpipe .suspend)

/-- At most one command to suspend, and one if the guest was to be suspended while it was up. -/
def ToldOnce (s : Session) : Prop := s.written ≤ 1 ∧ (s.awake = true → s.written = 1)

instance : DecidablePred ToldOnce := fun _ => inferInstanceAs (Decidable (_ ∧ _))

/-- No call finds the guest neither suspended nor suspending after another call did. -/
def single (s : Session) (l : Env × Op) : Prop := writes s.controller l.2 = true → s.asked = false

instance (s : Session) (l : Env × Op) : Decidable (single s l) := inferInstanceAs (Decidable (_ → _))

def Silent (c d : Controller) : Prop := ∃ more, d.out = c.out ++ more ∧ .clientpipe .suspend ∉ more

theorem step_silent {c : Controller} (env : Env) {op : Op} (other : op ≠ .suspend)
    (within : begins op = false) : Silent c (step env op c) := by
  have awake : op ≠ .qemuSuspended := by
    rintro rfl
    cases within
  exact (step_still env ⟨other, awake⟩).out

section Steps
variable {s t : Session} {l : Env × Op}

theorem suspend_out (env : Env) (c : Controller) : (step env .suspend c).out =
    c.out ++ if writes c .suspend then [.clientpipe .suspend] else [] := by
  simp only [step, suspend, writes]
  by_cases suspended : c.ga = .suspended
  · simp [suspended]
  · by_cases suspending : c.ga = .suspending
    · simp [suspending]
    · simp [suspended, suspending, writeGa, emit, emitAll]

theorem step_count (env : Env) {op : Op} (c : Controller) (within : begins op = false) :
    ∃ more, (step env op c).out = c.out ++ more ∧
      more.count (.clientpipe .suspend) = if writes c op then 1 else 0 := by
  by_cases asked : op = .suspend
  · subst asked
    refine ⟨_, suspend_out env c, ?_⟩
    split <;> rfl
  · obtain ⟨more, grown, none⟩ := step_silent (c := c) env asked within
    exact ⟨more, grown, by simp [writes, asked, List.count_eq_zero.mpr none]⟩

structure Counted (s : Session) : Prop where
  inside : s.mark ≤ s.controller.out.length
  written : s.written = if s.asked then 1 else 0
  awake : s.awake = true → s.asked = true

theorem written_step (inside : s.mark ≤ s.controller.out.length) (within : begins l.2 = false)
    (taken : sessionStep s l = some t) :
    t.mark ≤ t.controller.out.length ∧
      t.written = s.written + if writes s.controller l.2 then 1 else 0 := by
  obtain ⟨more, grown, count⟩ := step_count l.1 s.controller within
  simp only [sessionStep, within, Bool.false_eq_true, if_false] at taken
  cases taken
  constructor
  · rw [grown, List.length_append]
    exact Nat.le_add_right_of_le inside
  · simp only [Session.written]
    rw [grown, List.drop_append_of_le_length inside, List.count_append, count]

theorem wakeful_writes {c : Controller} {op : Op} (wakes : wakeful c op = true) :
    writes c op = true := by
  simp only [wakeful, decide_eq_true_eq] at wakes
  obtain ⟨asked, up | pinging⟩ := wakes
  · simp [writes, asked, up]
  · simp [writes, asked, pinging]

theorem counted_step (counted : Counted s) (ok : single s l) (taken : sessionStep s l = some t) :
    Counted t := by
  cases fresh : begins l.2 with
  | true =>
    simp only [sessionStep, fresh, if_true] at taken
    cases taken
    exact ⟨Nat.le_refl _, by simp [Session.written], nofun⟩
  | false =>
    obtain ⟨inside, grew⟩ := written_step counted.inside fresh taken
    simp only [sessionStep, fresh, Bool.false_eq_true, if_false] at taken
    cases taken
    refine ⟨inside, ?_, ?_⟩
    · rw [grew, counted.written]
      cases needed : writes s.controller l.2 with
      | false => simp
      | true => simp [ok needed]
    · intro wakes
      simp only [Bool.or_eq_true, Bool.and_eq_true] at wakes ⊢
      rcases wakes with before | ⟨now, _⟩
      · exact Or.inl (counted.awake before)
      · exact Or.inr (wakeful_writes now)

theorem toldOnce_of_counted (counted : Counted s) : ToldOnce s := by
  unfold ToldOnce
  rw [counted.written]
  constructor
  · split <;> decide
  · intro wakes
    rw [if_pos (counted.awake wakes)]

theorem single_of_toldOnce (counted : Counted s) (taken : sessionStep s l = some t)
    (once : ToldOnce t) : single s l := by
  intro needed
  have within : begins l.2 = false := by
    simp only [writes, decide_eq_true_eq] at needed
    rw [needed.1]
    rfl
  have grew := (written_step counted.inside within taken).2
  have most := once.1
  rw [grew, counted.written, if_pos needed] at most
  by_contra asked
  simp [asked] at most

end Steps

/-- The guest agent is told to suspend the guest at most once before it does, and once if it was up,
    exactly in the runs in which no such call follows another one. -/
theorem told_once_iff (machine : MachineConfig) (hooks : HooksConfig) (input : Input)
    (ls : List (Env × Op)) :
    Runs.Always sessionStep ToldOnce (start machine hooks input) ls ↔
      Runs.Meets sessionStep single (start machine hooks input) ls := by
  have initial : Counted (start machine hooks input) :=
    ⟨Nat.le_refl 0, by simp [start, Session.written, new], nofun⟩
  exact Runs.always_iff_meets Counted (fun _ _ _ => counted_step) (fun _ => toldOnce_of_counted)
    (fun _ _ _ => single_of_toldOnce) initial ls

/-- Two clients suspend the guest before it has reported back, whether its agent is up or was
    never started. -/
theorem told_twice :
    ¬ Runs.Always sessionStep ToldOnce (start .bare .bare (Input.new .bare))
        [(.bare, .gaHello), (.bare, .suspend), (.bare, .suspend)] ∧
      ¬ Runs.Always sessionStep ToldOnce (start .bare .bare (Input.new .bare))
        [(.bare, .suspend), (.bare, .suspend), (.bare, .qemuSuspended)] := by
  decide +kernel

end SuspendRequests
