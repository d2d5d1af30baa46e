import Mathlib.Data.Option.Basic

/- Programs that call the operations of a machine and go on with the answers. A program cannot tell
   two machines apart that answer alike. -/
namespace Programs
variable {O A R S T : Type*}

/-- Each way through a program is finite. -/
inductive Program (O A R : Type*) where
  | done (result : R)
  | call (op : O) (next : A → Program O A R)

/-- The result, and the state that is left; `none` once an operation fails. -/
def run (step : S → O → Option (S × A)) : Program O A R → S → Option (S × R)
  | .done result, s => some (s, result)
  | .call op next, s => (step s op).bind fun (t, answer) => run step (next answer) t

def Match (rel : S → T → Prop) (x : S × A) (y : T × A) : Prop := rel x.1 y.1 ∧ x.2 = y.2

/-- In related states each operation fails in both machines or is answered alike. -/
def Alike (rel : S → T → Prop) (one : S → O → Option (S × A)) (other : T → O → Option (T × A)) :
    Prop :=
  ∀ s t op, rel s t → Option.Rel (Match rel) (one s op) (other t op)

section Results
variable {rel : S → T → Prop} {one : S → O → Option (S × A)} {other : T → O → Option (T × A)}
  {s : S} {t : T}

theorem run_alike (alike : Alike rel one other) (p : Program O A R) (start : rel s t) :
    Option.Rel (Match rel) (run one p s) (run other p t) := by
  induction p generalizing s t with
  | done result => exact .some ⟨start, rfl⟩
  | call op next ih =>
    have answered := alike s t op start
    rw [run, run]
    generalize one s op = x at answered
    generalize other t op = y at answered
    cases answered with
    | none => exact .none
    | some both =>
      rename_i x y
      obtain ⟨related, same⟩ := both
      simp only [Option.bind_some, same]
      exact ih y.2 related

theorem result_eq (alike : Alike rel one other) (p : Program O A R) (start : rel s t) :
    (run one p s).map Prod.snd = (run other p t).map Prod.snd := by
  have ended := run_alike alike p start
  generalize run one p s = x at ended
  generalize run other p t = y at ended
  cases ended with
  | none => rfl
  | some both => simp only [Option.map_some, both.2]

end Results

end Programs
