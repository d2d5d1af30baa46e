import Mathlib.Data.Fintype.Defs
import Mathlib.Data.List.Basic
import Mathlib.Logic.Function.Basic

/- Sparse layers over a base, as in images with a backing file. What is not in the layer is read from
   the base, writes go to the layer, and a commit copies the layer down place by place. -/
namespace Overlays
variable {σ β : Type*}

def blank : σ → Option β := fun _ => none

def read (base : σ → β) (layer : σ → Option β) : σ → β := fun s => (layer s).getD (base s)

/-- The base already has everything the layer has. -/
def Synced (base : σ → β) (layer : σ → Option β) : Prop := ∀ s, ∀ v ∈ layer s, base s = v

instance [Fintype σ] [DecidableEq β] (base : σ → β) (layer : σ → Option β) :
    Decidable (Synced base layer) :=
  inferInstanceAs (Decidable (∀ s, ∀ v ∈ layer s, base s = v))

section Writing
variable [DecidableEq σ]

def write (layer : σ → Option β) (s : σ) (v : β) : σ → Option β :=
  Function.update layer s (some v)

def copy (base : σ → β) (layer : σ → Option β) (s : σ) : σ → β :=
  Function.update base s (read base layer s)

end Writing

variable {base : σ → β} {layer : σ → Option β}

@[simp] theorem read_blank : read base blank = base := rfl

theorem read_synced (synced : Synced base layer) : read base layer = base := by
  funext s
  cases there : layer s with
  | none => simp [read, there]
  | some v => simp [read, there, synced s v there]

section Copying
variable [DecidableEq σ]

@[simp] theorem read_write (s : σ) (v : β) :
    read base (write layer s v) = Function.update (read base layer) s v := by
  funext t
  by_cases same : t = s
  · simp [read, write, same]
  · simp [read, write, same]

/-- A commit can stop anywhere: what is read through the layer stays. -/
@[simp] theorem read_copy (s : σ) : read (copy base layer s) layer = read base layer := by
  funext t
  by_cases same : t = s
  · subst same
    cases there : layer t <;> simp [read, copy, there]
  · simp [read, copy, same]

/-- Copying every place that is in the layer makes the base whole. -/
theorem synced_copies (places : List σ) (covers : ∀ s v, layer s = some v → s ∈ places) :
    Synced (places.foldl (fun base s => copy base layer s) base) layer := by
  have keeps : ∀ (places : List σ) (base : σ → β) s v, layer s = some v → s ∈ places ∨ base s = v →
      (places.foldl (fun base s => copy base layer s) base) s = v := by
    intro places
    induction places with
    | nil =>
      intro base s v _ there
      exact there.resolve_left List.not_mem_nil
    | cons p places ih =>
      intro base s v inside there
      refine ih _ s v inside ?_
      by_cases same : s = p
      · subst same
        exact Or.inr (by simp [copy, read, inside])
      · rcases there with member | copied
        · exact Or.inl ((List.mem_cons.mp member).resolve_left same)
        · exact Or.inr (by simpa [copy, same] using copied)
  exact fun s v inside => keeps places base s v inside (Or.inl (covers s v inside))

end Copying
end Overlays
