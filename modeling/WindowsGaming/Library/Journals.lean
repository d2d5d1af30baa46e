import Mathlib.Data.List.Basic

/- A journal is a list of events, written left to right and read back by folding. It is
   lawful when every event was allowed by what the events before it had left behind. -/
namespace Journals
variable {S E : Type*} (next : S → E → S) (ok : S → E → Prop)

def Lawful : S → List E → Prop
  | _, [] => True
  | s, e :: es => ok s e ∧ Lawful (next s e) es

variable {next ok}

theorem lawful_append (s : S) (es fs : List E) :
    Lawful next ok s (es ++ fs) ↔ Lawful next ok s es ∧ Lawful next ok (es.foldl next s) fs := by
  induction es generalizing s with
  | nil => simp [Lawful]
  | cons e es ih => simp only [List.cons_append, Lawful, ih, List.foldl_cons, and_assoc]

/-- Lawfulness read at every place where the journal can be cut. -/
theorem lawful_iff_cuts (s : S) (es : List E) :
    Lawful next ok s es ↔
      ∀ before e after, es = before ++ e :: after → ok (before.foldl next s) e := by
  induction es generalizing s with
  | nil => simp [Lawful]
  | cons first es ih =>
    rw [Lawful, ih]
    constructor
    · rintro ⟨here, later⟩ before e after cut
      cases before with
      | nil =>
        obtain ⟨rfl, rfl⟩ := List.cons.inj cut
        exact here
      | cons b before =>
        obtain ⟨rfl, rest⟩ := List.cons.inj cut
        exact later before e after rest
    · intro h
      refine ⟨h [] first es rfl, ?_⟩
      intro before e after cut
      exact h (first :: before) e after (by rw [cut, List.cons_append])

theorem foldl_still {s : S} {es : List E} (still : ∀ e ∈ es, next s e = s) :
    es.foldl next s = s := by
  induction es with
  | nil => rfl
  | cons e es ih =>
    rw [List.foldl_cons, still e List.mem_cons_self]
    exact ih fun f hf => still f (List.mem_cons_of_mem e hf)

theorem lawful_still {s : S} {es : List E} (still : ∀ e ∈ es, next s e = s)
    (allowed : ∀ e ∈ es, ok s e) : Lawful next ok s es := by
  induction es with
  | nil => trivial
  | cons e es ih =>
    refine ⟨allowed e List.mem_cons_self, ?_⟩
    rw [still e List.mem_cons_self]
    exact ih (fun f hf => still f (List.mem_cons_of_mem e hf))
      fun f hf => allowed f (List.mem_cons_of_mem e hf)

/-- Events that neither move the state nor are restricted can be left out. -/
theorem foldl_filter {keep : E → Bool} (drop : ∀ s e, keep e = false → next s e = s) (s : S)
    (es : List E) : (es.filter keep).foldl next s = es.foldl next s := by
  induction es generalizing s with
  | nil => rfl
  | cons e es ih =>
    cases kept : keep e with
    | true => simp [kept, ih]
    | false => simp [kept, ih, drop s e kept]

theorem lawful_filter {keep : E → Bool} (drop : ∀ s e, keep e = false → next s e = s ∧ ok s e)
    (s : S) (es : List E) : Lawful next ok s (es.filter keep) ↔ Lawful next ok s es := by
  induction es generalizing s with
  | nil => rfl
  | cons e es ih =>
    cases kept : keep e with
    | true => simp [kept, Lawful, ih]
    | false => simp [kept, Lawful, ih, drop s e kept]

section Growing
variable {α β : Type*}

theorem getElem?_concat_cases {xs : List α} {a b : α} {i : Nat}
    (found : (xs ++ [a])[i]? = some b) : xs[i]? = some b ∨ i = xs.length ∧ b = a := by
  rw [List.getElem?_append] at found
  split at found
  · exact Or.inl found
  · rename_i beyond
    obtain ⟨bound, single⟩ := List.getElem?_eq_some_iff.mp found
    rw [List.length_singleton] at bound
    refine Or.inr ⟨by omega, ?_⟩
    rw [← single, List.getElem_singleton]

theorem getElem?_concat_both {xs : List α} {ys : List β} {a x : α} {b y : β} {i : Nat}
    (level : xs.length = ys.length) (left : (xs ++ [a])[i]? = some x)
    (right : (ys ++ [b])[i]? = some y) :
    xs[i]? = some x ∧ ys[i]? = some y ∨ x = a ∧ y = b := by
  rcases getElem?_concat_cases left with old | ⟨rfl, rfl⟩
  · rcases getElem?_concat_cases right with before | ⟨rfl, -⟩
    · exact Or.inl ⟨old, before⟩
    · have inside := (List.getElem?_eq_some_iff.mp old).1
      omega
  · rw [level, List.getElem?_concat_length] at right
    exact Or.inr ⟨rfl, (Option.some.inj right).symm⟩

theorem getElem?_append_of_some {xs : List α} {a : α} {i : Nat} (ys : List α)
    (found : xs[i]? = some a) : (xs ++ ys)[i]? = some a :=
  (List.getElem?_append_left (List.getElem?_eq_some_iff.mp found).1).trans found

theorem map_drop_eq_cons {f : α → β} {xs : List α} {n : Nat} {b : β} {rest : List β}
    (pipe : (xs.drop n).map f = b :: rest) :
    ∃ a, xs[n]? = some a ∧ b = f a ∧ rest = (xs.drop (n + 1)).map f := by
  obtain ⟨a, behind, waiting, rfl, rfl⟩ := List.map_eq_cons_iff.mp pipe
  refine ⟨a, ?_, rfl, ?_⟩
  · have head := congrArg List.head? waiting
    rwa [List.head?_drop] at head
  · rw [← List.tail_drop, waiting]
    rfl

end Growing
end Journals
