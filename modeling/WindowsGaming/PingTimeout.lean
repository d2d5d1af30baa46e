import Mathlib.Data.List.Induction
import WindowsGaming.GuestAgent
import WindowsGaming.Outbox

/- Why a ping timed out. The controller remembers an outstanding ping only by its state, so
   the state is traced back to the operation that wrote the ping. -/
namespace PingTimeout
open Config Protocol Controller Outbox

/-- The run wrote a ping, and since then neither a pong nor a hello came and no other ping
    was written. -/
def Unanswered (start : Controller) (ls : List (Env × Op)) : Prop :=
  ∃ before env since, ls = before ++ (env, .gaPing) :: since ∧
    (∀ l ∈ since, l.2 ≠ .gaPong ∧ l.2 ≠ .gaHello) ∧
    (operateAll before start).gaPing.1.out =
      (operateAll before start).out ++ [.clientpipe .ping] ∧
    ∃ es, (operateAll ls start).out = (operateAll before start).gaPing.1.out ++ es ∧
      .clientpipe .ping ∉ es

section Steps
variable {c start : Controller} {op : Op}

theorem news_ping (other : op ≠ .gaPing) : .clientpipe .ping ∉ news c op := by
  intro member
  cases mem_news member with
  | ping asked => exact other asked

theorem pinging_step (env : Env) (pinging : (step env op c).ga = .pinging) :
    (op = .gaPing ∧ c.ga = .up) ∨
      (op ≠ .gaPing ∧ op ≠ .gaPong ∧ op ≠ .gaHello ∧ c.ga = .pinging) := by
  rw [GuestAgent.step_nextGa] at pinging
  unfold GuestAgent.nextGa at pinging
  cases op with
  | gaPing => cases ga : c.ga <;> simp [ga] at pinging ⊢
  | gaPong =>
    simp only at pinging
    split at pinging
    · cases pinging
    · rename_i other
      exact absurd pinging other
  | gaHello => cases pinging
  | gaSuspending => cases pinging
  | qemuSuspended => cases pinging
  | _ =>
    simp only at pinging
    split at pinging
    · cases pinging
    · exact Or.inr ⟨by simp, by simp, by simp, pinging⟩

theorem gaPing_writes (up : c.ga = .up) : c.gaPing.1.out = c.out ++ [.clientpipe .ping] := by
  unfold gaPing
  rw [up]
  rfl

theorem unanswered_step {ls : List (Env × Op)} (env : Env) (unanswered : Unanswered start ls)
    (quiet : op ≠ .gaPing ∧ op ≠ .gaPong ∧ op ≠ .gaHello) :
    Unanswered start (ls ++ [(env, op)]) := by
  obtain ⟨before, asked, since, rfl, silent, writes, es, grown, none⟩ := unanswered
  obtain ⟨more, grew, iff⟩ := adds_mem (step_adds env op
    (operateAll (before ++ (asked, .gaPing) :: since) start)) (e := .clientpipe .ping) rfl
  refine ⟨before, asked, since ++ [(env, op)], by simp, ?_, writes, es ++ more, ?_, ?_⟩
  · intro l member
    rcases List.mem_append.mp member with old | new
    · exact silent l old
    · rw [List.mem_singleton.mp new]
      exact quiet.2
  · rw [operateAll_append, ← List.append_assoc, ← grown]
    exact grew
  · intro member
    rcases List.mem_append.mp member with old | new
    · exact none old
    · exact news_ping quiet.1 (iff.mp new)

theorem pinging_unanswered (fresh : start.ga ≠ .pinging) (ls : List (Env × Op))
    (pinging : (operateAll ls start).ga = .pinging) : Unanswered start ls := by
  induction ls using List.reverseRecOn with
  | nil => exact absurd pinging fresh
  | append_singleton ls l ih =>
    obtain ⟨env, op⟩ := l
    rw [operateAll_append] at pinging
    rcases pinging_step env pinging with ⟨rfl, up⟩ | ⟨other, noPong, noHello, before⟩
    · refine ⟨ls, env, [], rfl, by simp, gaPing_writes up, [], ?_, by simp⟩
      rw [operateAll_append]
      simp [step]
    · exact unanswered_step env (ih before) ⟨other, noPong, noHello⟩

theorem gaPing_goesOn (c : Controller) :
    ∃ es, c.gaPing.1.out = c.out ++ es ∧ (c.gaPing.2 = true ↔ .clientpipe .ping ∈ es) := by
  obtain ⟨es, grown, iff⟩ := adds_mem (adds_gaPing c) (e := .clientpipe .ping) rfl
  refine ⟨es, grown, ?_⟩
  rw [iff]
  unfold gaPing
  cases ga : c.ga <;> simp

end Steps

/-- A `ga_ping` that gives the guest agent up follows a ping that was never answered, and
    `ga_ping` returns `true` exactly when it writes a ping. -/
theorem ping_timeout_justified (machine : MachineConfig) (hooks : HooksConfig) (input : Input)
    (ls : List (Env × Op)) :
    ((operateAll ls (new machine hooks input)).ga ≠ .down →
      (operateAll ls (new machine hooks input)).gaPing.1.ga = .down →
        Unanswered (new machine hooks input) ls) ∧
      ∃ es, (operateAll ls (new machine hooks input)).gaPing.1.out =
          (operateAll ls (new machine hooks input)).out ++ es ∧
        ((operateAll ls (new machine hooks input)).gaPing.2 = true ↔ .clientpipe .ping ∈ es) := by
  refine ⟨?_, gaPing_goesOn _⟩
  intro alive dies
  apply pinging_unanswered (by simp [new])
  rw [GuestAgent.gaPing_ga] at dies
  cases ga : (operateAll ls (new machine hooks input)).ga <;> simp [ga] at alive dies ⊢

theorem silent_agent_unanswered :
    Unanswered (new .bare .bare (Input.new .bare))
      [(.bare, .gaHello), (.bare, .gaPing), (.bare, .ioAttach)] :=
  (ping_timeout_justified .bare .bare (Input.new .bare) _).1 (by decide) (by decide)

end PingTimeout
