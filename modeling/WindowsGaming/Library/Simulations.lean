import Mathlib.Data.List.Basic

/- A machine that answers each of its inputs, held against a specification with a state of its
   own. The specification says which inputs may come, which answers are right and where an
   answer leads. Failing on an input that may come is not conforming. -/
namespace Simulations
variable {S T I O : Type*}

structure Spec (S T I O : Type*) where
  rel : S → T → Prop
  allowed : S → I → Prop
  right : T → I → O → Prop
  next : T → I → O → T

/-- As long as the inputs are allowed, all states are related and all answers right. -/
def Conforms (spec : Spec S T I O) (step : S → I → Option (S × O)) : S → T → List I → Prop
  | s, t, [] => spec.rel s t
  | s, t, i :: is =>
    spec.rel s t ∧ (spec.allowed s i → ∃ s' o, step s i = some (s', o) ∧ spec.right t i o ∧
      Conforms spec step s' (spec.next t i o) is)

/-- One step from related states answers rightly and leads to related states. -/
def Simulates (spec : Spec S T I O) (step : S → I → Option (S × O)) : Prop :=
  ∀ s t i, spec.rel s t → spec.allowed s i →
    ∃ s' o, step s i = some (s', o) ∧ spec.right t i o ∧ spec.rel s' (spec.next t i o)

variable {spec : Spec S T I O} {step : S → I → Option (S × O)}

theorem conforms_of_simulates (simulates : Simulates spec step) {s : S} {t : T}
    (related : spec.rel s t) (is : List I) : Conforms spec step s t is := by
  induction is generalizing s t with
  | nil => exact related
  | cons i is ih =>
    refine ⟨related, ?_⟩
    intro may
    obtain ⟨s', o, taken, right, after⟩ := simulates s t i related may
    exact ⟨s', o, taken, right, ih after⟩

end Simulations
