import Mathlib.Data.List.Nodup
import Mathlib.Data.List.Perm.Basic
import WindowsGaming.Library.Journals

/- Logs of switches. An event turns one switch on or off; a switch that is off can only
   be turned on next, and the other way round. The rule of this library is about sets of
   switches that are always thrown together. -/
namespace Toggles
variable {κ : Type*} [DecidableEq κ]

def throw (_ e : Bool) : Bool := e

/-- Each event changes the position, starting from `pos`. -/
def Alternating (pos : Bool) (es : List Bool) : Prop :=
  Journals.Lawful throw (fun pos e => e = !pos) pos es

def settle (pos : Bool) (es : List Bool) : Bool := es.foldl throw pos

def stream (k : κ) (log : List (κ × Bool)) : List Bool :=
  (log.filter fun e => e.1 = k).map Prod.snd

/-- Only the switches of `ks` were used, each one alternates, all are at `pos` now. -/
structure Together (ks : List κ) (pos : Bool) (log : List (κ × Bool)) : Prop where
  known : ∀ e ∈ log, e.1 ∈ ks
  alternates : ∀ k ∈ ks, Alternating false (stream k log)
  position : ∀ k ∈ ks, settle false (stream k log) = pos

theorem stream_append (k : κ) (log more : List (κ × Bool)) :
    stream k (log ++ more) = stream k log ++ stream k more := by
  simp [stream]

theorem stream_block {ks : List κ} (distinct : ks.Nodup) {k : κ} (member : k ∈ ks) (b : Bool) :
    stream k (ks.map fun j => (j, b)) = [b] := by
  have once : (ks.filter fun j => decide (j = k)) = [k] := by
    have count := List.count_eq_one_of_mem distinct member
    rw [List.count_eq_length_filter] at count
    obtain ⟨j, single⟩ := List.length_eq_one_iff.mp count
    have same : j = k := by
      have : j ∈ ks.filter fun i => i == k := by simp [single]
      simpa using (List.mem_filter.mp this).2
    subst same
    exact single
  simp only [stream, List.filter_map, Function.comp_def, once, List.map_cons, List.map_nil]

theorem together_nil (ks : List κ) : Together ks false ([] : List (κ × Bool)) where
  known := by simp
  alternates := by simp [stream, Alternating, Journals.Lawful]
  position := by simp [stream, settle]

theorem together_no_switches {pos other : Bool} {log : List (κ × Bool)}
    (h : Together [] pos log) : Together [] other log where
  known := h.known
  alternates := by simp
  position := by simp

/-- Throwing all switches, in whatever order, keeps them together. -/
theorem together_throw {ks block : List κ} {pos : Bool} {log : List (κ × Bool)}
    (h : Together ks pos log) (distinct : ks.Nodup) (all : block.Perm ks) :
    Together ks (!pos) (log ++ block.map fun k => (k, !pos)) := by
  have once : ∀ k ∈ ks, stream k (block.map fun j => (j, !pos)) = [!pos] := by
    intro k hk
    exact stream_block (all.nodup_iff.mpr distinct) (all.mem_iff.mpr hk) (!pos)
  constructor
  · intro e he
    rcases List.mem_append.mp he with old | new
    · exact h.known e old
    · obtain ⟨k, hk, rfl⟩ := List.mem_map.mp new
      exact all.mem_iff.mp hk
  · intro k hk
    have before := h.alternates k hk
    have here := h.position k hk
    unfold Alternating settle at *
    rw [stream_append, Journals.lawful_append, once k hk, here]
    exact ⟨before, rfl, trivial⟩
  · intro k hk
    rw [stream_append, settle, List.foldl_append, once k hk]
    rfl

end Toggles
