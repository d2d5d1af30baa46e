import Mathlib.Data.List.Basic

/- Finite runs of a deterministic labelled machine. A label carries everything the
   environment chooses, so all interleavings are label lists. A label that is not
   enabled in a state has no successor there. -/
namespace Runs
variable {S L : Type*} {step : S → L → Option S}

/-- Run a list of labels from a state; `none` once a label is not enabled. -/
def run (step : S → L → Option S) : S → List L → Option S
  | s, [] => some s
  | s, l :: ls => (step s l).bind fun t => run step t ls

/-- The property holds in every state the run passes through, the first included. -/
def Always (step : S → L → Option S) (P : S → Prop) : S → List L → Prop
  | s, [] => P s
  | s, l :: ls => P s ∧ ∀ t, step s l = some t → Always step P t ls

/-- Every step the run takes meets the condition in the state before it. -/
def Meets (step : S → L → Option S) (ok : S → L → Prop) : S → List L → Prop
  | _, [] => True
  | s, l :: ls => ∀ t, step s l = some t → ok s l ∧ Meets step ok t ls

theorem always_cons_of_none {P : S → Prop} {s : S} {l : L} {ls : List L} (stuck : step s l = none) :
    Always step P s (l :: ls) ↔ P s := by
  simp [Always, stuck]

theorem always_cons_of_some {P : S → Prop} {s t : S} {l : L} {ls : List L}
    (first : step s l = some t) : Always step P s (l :: ls) ↔ P s ∧ Always step P t ls := by
  simp [Always, first]

theorem meets_cons_of_none {ok : S → L → Prop} {s : S} {l : L} {ls : List L}
    (stuck : step s l = none) : Meets step ok s (l :: ls) ↔ True := by
  simp [Meets, stuck]

theorem meets_cons_of_some {ok : S → L → Prop} {s t : S} {l : L} {ls : List L}
    (first : step s l = some t) : Meets step ok s (l :: ls) ↔ ok s l ∧ Meets step ok t ls := by
  simp [Meets, first]

instance decidableAlways {P : S → Prop} [DecidablePred P] :
    ∀ (s : S) (ls : List L), Decidable (Always step P s ls)
  | s, [] => inferInstanceAs (Decidable (P s))
  | s, l :: ls =>
    match first : step s l with
    | none => decidable_of_iff' _ (always_cons_of_none first)
    | some t =>
      have : Decidable (Always step P t ls) := decidableAlways t ls
      decidable_of_iff' _ (always_cons_of_some first)

instance decidableMeets {ok : S → L → Prop} [∀ s l, Decidable (ok s l)] :
    ∀ (s : S) (ls : List L), Decidable (Meets step ok s ls)
  | _, [] => inferInstanceAs (Decidable True)
  | s, l :: ls =>
    match first : step s l with
    | none => decidable_of_iff' _ (meets_cons_of_none first)
    | some t =>
      have : Decidable (Meets step ok t ls) := decidableMeets t ls
      decidable_of_iff' _ (meets_cons_of_some first)

@[simp] theorem run_nil (s : S) : run step s [] = some s := rfl

@[simp] theorem run_cons (s : S) (l : L) (ls : List L) :
    run step s (l :: ls) = (step s l).bind fun t => run step t ls := rfl

theorem run_concat (s : S) (ls : List L) (l : L) :
    run step s (ls ++ [l]) = (run step s ls).bind fun t => step t l := by
  induction ls generalizing s with
  | nil => simp
  | cons m ls ih => cases first : step s m <;> simp [first, ih]

theorem always_head {P : S → Prop} {s : S} {ls : List L} (h : Always step P s ls) : P s := by
  cases ls with
  | nil => exact h
  | cons l ls => exact h.1

theorem always_last {P : S → Prop} {s t : S} {ls : List L} (h : Always step P s ls)
    (reach : run step s ls = some t) : P t := by
  induction ls generalizing s with
  | nil =>
    cases reach
    exact h
  | cons l ls ih =>
    obtain ⟨u, first, rest⟩ := Option.bind_eq_some_iff.mp reach
    exact ih (h.2 u first) rest

/-- The invariant rule: what every allowed step preserves holds along every allowed run. -/
theorem always_of_invariant (Inv : S → Prop) {ok : S → L → Prop}
    (preserves : ∀ s l t, Inv s → ok s l → step s l = some t → Inv t)
    {s : S} {ls : List L} (initial : Inv s) (allowed : Meets step ok s ls) :
    Always step Inv s ls := by
  induction ls generalizing s with
  | nil => exact initial
  | cons l ls ih =>
    refine ⟨initial, ?_⟩
    intro t first
    obtain ⟨good, rest⟩ := allowed t first
    exact ih (preserves s l t initial good first) rest

theorem always_of_preserved (Inv : S → Prop)
    (preserves : ∀ s l t, Inv s → step s l = some t → Inv t)
    {s : S} (initial : Inv s) (ls : List L) : Always step Inv s ls := by
  induction ls generalizing s with
  | nil => exact initial
  | cons l ls ih => exact ⟨initial, fun t first => ih (preserves s l t initial first)⟩

theorem always_mono {P Q : S → Prop} (weaken : ∀ s, P s → Q s) {s : S} {ls : List L}
    (h : Always step P s ls) : Always step Q s ls := by
  induction ls generalizing s with
  | nil => exact weaken s h
  | cons l ls ih => exact ⟨weaken s h.1, fun t first => ih (h.2 t first)⟩

/-- The exactness rule. When a step outside the condition always breaks the property,
    the property holds along a run exactly when all its steps meet the condition. -/
theorem always_iff_meets (Inv : S → Prop) {P : S → Prop} {ok : S → L → Prop}
    (preserves : ∀ s l t, Inv s → ok s l → step s l = some t → Inv t)
    (sound : ∀ s, Inv s → P s)
    (sharp : ∀ s l t, Inv s → step s l = some t → P t → ok s l)
    {s : S} (initial : Inv s) (ls : List L) :
    Always step P s ls ↔ Meets step ok s ls := by
  constructor
  · intro h
    induction ls generalizing s with
    | nil => trivial
    | cons l ls ih =>
      intro t first
      have good : ok s l := sharp s l t initial first (always_head (h.2 t first))
      exact ⟨good, ih (preserves s l t initial good first) (h.2 t first)⟩
  · intro h
    exact always_mono sound (always_of_invariant Inv preserves initial h)

theorem always_iff_meets_within (Inv : S → Prop) {P : S → Prop} {allowed ok : S → L → Prop}
    (preserves : ∀ s l t, Inv s → allowed s l → ok s l → step s l = some t → Inv t)
    (sound : ∀ s, Inv s → P s)
    (sharp : ∀ s l t, Inv s → allowed s l → step s l = some t → P t → ok s l)
    {s : S} (initial : Inv s) {ls : List L} (within : Meets step allowed s ls) :
    Always step P s ls ↔ Meets step ok s ls := by
  constructor
  · intro h
    induction ls generalizing s with
    | nil => trivial
    | cons l ls ih =>
      intro t first
      obtain ⟨may, rest⟩ := within t first
      have good : ok s l := sharp s l t initial may first (always_head (h.2 t first))
      exact ⟨good, ih (preserves s l t initial may good first) rest (h.2 t first)⟩
  · intro h
    induction ls generalizing s with
    | nil => exact sound s initial
    | cons l ls ih =>
      refine ⟨sound s initial, ?_⟩
      intro t first
      obtain ⟨may, rest⟩ := within t first
      obtain ⟨good, later⟩ := h t first
      exact ih (preserves s l t initial may good first) rest later

theorem run_append (s : S) (ls ms : List L) :
    run step s (ls ++ ms) = (run step s ls).bind fun t => run step t ms := by
  induction ls generalizing s with
  | nil => simp
  | cons l ls ih => cases first : step s l <;> simp [first, ih]

theorem run_preserved {Inv : S → Prop} (preserves : ∀ s l t, Inv s → step s l = some t → Inv t)
    {s t : S} {ls : List L} (initial : Inv s) (reach : run step s ls = some t) : Inv t :=
  always_last (always_of_preserved Inv preserves initial ls) reach

/-- Left alone, a party comes to rest after at most so many of its own steps, in whatever order it takes
    them, and the property holds then. -/
structure ComesToRest (step : S → L → Option S) (own : L → Prop) (bound : Nat) (P : S → Prop) (s : S) :
    Prop where
  bounded : ∀ ls t, (∀ l ∈ ls, own l) → run step s ls = some t → ls.length ≤ bound
  rests : ∀ ls t, (∀ l ∈ ls, own l) → run step s ls = some t → (∀ l, own l → step t l = none) → P t
  ends : ∃ ls t, (∀ l ∈ ls, own l) ∧ run step s ls = some t ∧ ∀ l, own l → step t l = none

section Settling
variable {own : L → Prop} {weight : S → Nat} {Inv P : S → Prop}

theorem run_keeps (keeps : ∀ s l t, Inv s → own l → step s l = some t → Inv t) {s t : S} {ls : List L}
    (inv : Inv s) (mine : ∀ l ∈ ls, own l) (reach : run step s ls = some t) : Inv t := by
  induction ls generalizing s with
  | nil =>
    cases reach
    exact inv
  | cons l ls ih =>
    obtain ⟨u, first, rest⟩ := Option.bind_eq_some_iff.mp reach
    obtain ⟨here, later⟩ := List.forall_mem_cons.mp mine
    exact ih (keeps s l u inv here first) later rest

theorem length_le_weight (keeps : ∀ s l t, Inv s → own l → step s l = some t → Inv t)
    (lighter : ∀ s l t, Inv s → own l → step s l = some t → weight t < weight s)
    {s t : S} {ls : List L} (inv : Inv s) (mine : ∀ l ∈ ls, own l)
    (reach : run step s ls = some t) : ls.length ≤ weight s := by
  induction ls generalizing s with
  | nil => exact Nat.zero_le _
  | cons l ls ih =>
    obtain ⟨u, first, rest⟩ := Option.bind_eq_some_iff.mp reach
    have here := mine l List.mem_cons_self
    have less := lighter s l u inv here first
    have short := ih (keeps s l u inv here first) (fun m hm => mine m (List.mem_cons_of_mem l hm)) rest
    rw [List.length_cons]
    omega

/-- Left alone, it comes to a state where none of its steps is enabled. -/
theorem settles (keeps : ∀ s l t, Inv s → own l → step s l = some t → Inv t)
    (lighter : ∀ s l t, Inv s → own l → step s l = some t → weight t < weight s)
    (s : S) (inv : Inv s) :
    ∃ ls t, (∀ l ∈ ls, own l) ∧ run step s ls = some t ∧ Inv t ∧ ∀ l, own l → step t l = none := by
  induction h : weight s using Nat.strongRecOn generalizing s with
  | ind n ih =>
    by_cases stuck : ∀ l, own l → step s l = none
    · exact ⟨[], s, nofun, rfl, inv, stuck⟩
    · simp only [not_forall] at stuck
      obtain ⟨l, mine, enabled⟩ := stuck
      obtain ⟨u, first⟩ := Option.ne_none_iff_exists'.mp enabled
      have less := lighter s l u inv mine first
      obtain ⟨ls, t, own_rest, reach, last, resting⟩ :=
        ih (weight u) (by omega) u (keeps s l u inv mine first) rfl
      refine ⟨l :: ls, t, ?_, ?_, last, resting⟩
      · exact List.forall_mem_cons.mpr ⟨mine, own_rest⟩
      · rw [run_cons, first]
        exact reach

theorem comesToRest (keeps : ∀ s l t, Inv s → own l → step s l = some t → Inv t)
    (lighter : ∀ s l t, Inv s → own l → step s l = some t → weight t < weight s)
    (final : ∀ t, Inv t → (∀ l, own l → step t l = none) → P t) (s : S) (inv : Inv s) :
    ComesToRest step own (weight s) P s := by
  refine ⟨fun ls t mine reach => length_le_weight keeps lighter inv mine reach, ?_, ?_⟩
  · intro ls t mine reach resting
    exact final t (run_keeps keeps inv mine reach) resting
  · obtain ⟨ls, t, mine, reach, -, resting⟩ := settles keeps lighter s inv
    exact ⟨ls, t, mine, reach, resting⟩

end Settling

end Runs
