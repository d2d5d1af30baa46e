import Mathlib.Data.List.AList
import Mathlib.Data.List.Induction

/- Keys that are numbered as they are first seen. The number of a new key is the size of the
   table, so the numbers have no gaps and follow the order of first appearance. -/
namespace Numbering
variable {κ : Type*} [DecidableEq κ]

def see (seen : List κ) (k : κ) : List κ := if k ∈ seen then seen else seen ++ [k]

/-- The distinct keys in the order of their first appearance. -/
def firstSeen (ks : List κ) : List κ := ks.foldl see []

structure Numbers (table : AList fun _ : κ => Nat) (seen : List κ) : Prop where
  size : table.entries.length = seen.length
  numbered : ∀ k ∈ seen, table.lookup k = some (seen.idxOf k)
  unknown : ∀ k, k ∉ seen → table.lookup k = none

theorem firstSeen_concat (ks : List κ) (k : κ) : firstSeen (ks ++ [k]) = see (firstSeen ks) k := by
  rw [firstSeen, List.foldl_append]
  rfl

theorem mem_see (seen : List κ) (k x : κ) : x ∈ see seen k ↔ x ∈ seen ∨ x = k := by
  unfold see
  split
  · rename_i known
    exact ⟨Or.inl, fun h => h.elim id fun same => same ▸ known⟩
  · simp

theorem mem_firstSeen {ks : List κ} {x : κ} : x ∈ firstSeen ks ↔ x ∈ ks := by
  induction ks using List.reverseRecOn with
  | nil => rfl
  | append_singleton ks k ih => rw [firstSeen_concat, mem_see, ih, List.mem_append, List.mem_singleton]

theorem idxOf_see {seen : List κ} {x : κ} (known : x ∈ seen) (k : κ) :
    (see seen k).idxOf x = seen.idxOf x := by
  unfold see
  split
  · rfl
  · exact List.idxOf_append_of_mem known

section Tables
variable {table : AList fun _ : κ => Nat} {seen : List κ} {k : κ}

theorem lookup_eq_some_iff (h : Numbers table seen) {i : Nat} :
    table.lookup k = some i ↔ k ∈ seen ∧ seen.idxOf k = i := by
  by_cases known : k ∈ seen
  · simp [h.numbered k known, known]
  · simp [h.unknown k known, known]

theorem lookup_eq_none_iff (h : Numbers table seen) : table.lookup k = none ↔ k ∉ seen := by
  refine ⟨?_, h.unknown k⟩
  intro missing known
  rw [h.numbered k known] at missing
  cases missing

theorem numbers_nil : Numbers (∅ : AList fun _ : κ => Nat) [] :=
  ⟨rfl, fun _ member => (List.not_mem_nil member).elim, fun k _ => AList.lookup_empty k⟩

theorem numbers_insert (h : Numbers table seen) (fresh : k ∉ seen) :
    Numbers (table.insert k table.entries.length) (seen ++ [k]) where
  size := by
    have absent : k ∉ table := AList.lookup_eq_none.mp (h.unknown k fresh)
    rw [AList.entries_insert_of_notMem absent, List.length_cons, List.length_append, h.size]
    rfl
  numbered := by
    intro x member
    by_cases same : x = k
    · subst same
      rw [AList.lookup_insert, List.idxOf_append_of_notMem fresh, h.size]
      simp
    · have old : x ∈ seen := by simpa [same] using member
      rw [AList.lookup_insert_ne same, List.idxOf_append_of_mem old]
      exact h.numbered x old
  unknown := by
    intro x absent
    rw [List.mem_append, List.mem_singleton, not_or] at absent
    rw [AList.lookup_insert_ne absent.2]
    exact h.unknown x absent.1

end Tables

end Numbering
