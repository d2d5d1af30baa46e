import WindowsGaming.Library.Runs

/- A worker with a queue and a bell. Whoever puts an item into the queue rings afterwards. The worker
   sleeps until the bell has rung, then takes items until it finds the queue empty. How many rings a
   bell remembers is left open, as long as it remembers one. -/
namespace Wakeups

structure Station where
  pushed : Nat
  taken : Nat
  rungFor : List Nat
  rings : Nat
  awake : Bool
  deriving DecidableEq, Repr

inductive Label where
  | push
  /-- Rung for the item at a position, or for none. -/
  | ring (item : Option Nat)
  | wake
  | stir
  | take
  | rest
  | shut
  deriving DecidableEq, Repr

def empty : Station := ⟨0, 0, [], 0, false⟩

variable (keep : Nat → Nat)

def step (s : Station) : Label → Option Station
  | .push => some { s with pushed := s.pushed + 1 }
  | .ring none => some { s with rings := keep s.rings }
  | .ring (some n) =>
    if n < s.pushed then some { s with rungFor := n :: s.rungFor, rings := keep s.rings } else none
  | .wake =>
    if s.awake = false ∧ 0 < s.rings then some { s with rings := s.rings - 1, awake := true }
    else none
  | .stir => some { s with awake := true }
  | .take => if s.awake = true ∧ s.taken < s.pushed then some { s with taken := s.taken + 1 } else none
  | .rest => if s.awake = true ∧ s.taken = s.pushed then some { s with awake := false } else none
  | .shut =>
    if s.awake = true ∧ s.taken = s.pushed then some { s with awake := false, rings := 0 } else none

/-- Nothing that was rung for waits for a worker who does not know of it. -/
structure Heard (s : Station) : Prop where
  within : s.taken ≤ s.pushed
  known : ∀ n ∈ s.rungFor, n < s.pushed
  heard : s.awake = false → s.rings = 0 → ∀ n ∈ s.rungFor, n < s.taken

variable {keep}

theorem heard_empty : Heard empty := ⟨Nat.le_refl 0, nofun, nofun⟩

theorem heard_step (remembers : ∀ n, 0 < keep n) {s t : Station} {l : Label} (heard : Heard s)
    (taken : step keep s l = some t) : Heard t := by
  obtain ⟨within, known, served⟩ := heard
  cases l with
  | push =>
    cases taken
    exact ⟨Nat.le_succ_of_le within, fun n hn => Nat.lt_succ_of_lt (known n hn), served⟩
  | ring item =>
    have loud := remembers s.rings
    cases item with
    | none =>
      cases taken
      exact ⟨within, known, fun _ silent => absurd silent (Nat.ne_of_gt loud)⟩
    | some n =>
      simp only [step, Option.ite_none_right_eq_some, Option.some.injEq] at taken
      obtain ⟨inside, rfl⟩ := taken
      refine ⟨within, ?_, fun _ silent => absurd silent (Nat.ne_of_gt loud)⟩
      exact List.forall_mem_cons.mpr ⟨inside, known⟩
  | wake =>
    simp only [step, Option.ite_none_right_eq_some, Option.some.injEq] at taken
    obtain ⟨-, rfl⟩ := taken
    exact ⟨within, known, nofun⟩
  | stir =>
    cases taken
    exact ⟨within, known, nofun⟩
  | take =>
    simp only [step, Option.ite_none_right_eq_some, Option.some.injEq] at taken
    obtain ⟨⟨awake, more⟩, rfl⟩ := taken
    exact ⟨more, known, fun asleep => absurd (awake.symm.trans asleep) nofun⟩
  | rest =>
    simp only [step, Option.ite_none_right_eq_some, Option.some.injEq] at taken
    obtain ⟨⟨-, drained⟩, rfl⟩ := taken
    exact ⟨within, known, fun _ _ n hn => drained ▸ known n hn⟩
  | shut =>
    simp only [step, Option.ite_none_right_eq_some, Option.some.injEq] at taken
    obtain ⟨⟨-, drained⟩, rfl⟩ := taken
    exact ⟨within, known, fun _ _ n hn => drained ▸ known n hn⟩

theorem run_take (n : Nat) {s : Station} (awake : s.awake = true) (enough : s.taken + n ≤ s.pushed) :
    Runs.run (step keep) s (List.replicate n .take) = some { s with taken := s.taken + n } := by
  induction n generalizing s with
  | zero => rfl
  | succ n ih =>
    have more : s.taken < s.pushed := by omega
    have later := ih (s := { s with taken := s.taken + 1 }) awake (by dsimp only; omega)
    rw [List.replicate_succ, Runs.run_cons, step, if_pos ⟨awake, more⟩, Option.bind_some, later]
    simp only [Nat.add_assoc, Nat.add_comm 1 n]

end Wakeups
