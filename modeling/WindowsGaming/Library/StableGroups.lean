import Mathlib.Data.List.Sort
import Mathlib.Data.List.Nodup
import Mathlib.Order.Lattice

/- Stable sorting by a key followed by grouping runs of equal keys. After the sort a
   group is exactly the class of its key in the input order, so positions inside groups
   can be computed from the unsorted list alone. -/
namespace StableGroups
variable {α κ : Type} [LinearOrder κ] (key : α → κ)

/-- Stable: elements with equal keys keep their order. -/
def sortedBy (xs : List α) : List α := xs.insertionSort fun a b => key a ≤ key b

def groupBy : List α → List (κ × List α)
  | [] => []
  | a :: xs =>
    match groupBy xs with
    | (k, g) :: rest =>
      if key a = k then (k, a :: g) :: rest else (key a, [a]) :: (k, g) :: rest
    | [] => [(key a, [a])]

def enumerate (xs : List α) : List (Nat × α) := xs.zipIdx.map Prod.swap

/-- Every element with its position inside its group. -/
def slots (xs : List α) : List (Nat × α) :=
  (groupBy key (sortedBy key xs)).flatMap fun g => enumerate g.2

def ofKey (k : κ) (xs : List α) : List α := xs.filter fun a => key a = k

theorem sortedBy_pairwise (xs : List α) :
    (sortedBy key xs).Pairwise fun a b => key a ≤ key b := by
  have total : Std.Total fun a b : α => key a ≤ key b := ⟨fun a b => le_total (key a) (key b)⟩
  have trans : IsTrans α fun a b : α => key a ≤ key b := ⟨fun _ _ _ h1 h2 => le_trans h1 h2⟩
  exact List.pairwise_insertionSort _ xs

theorem ofKey_sortedBy (k : κ) (xs : List α) :
    ofKey key k (sortedBy key xs) = ofKey key k xs := by
  have total : Std.Total fun a b : α => key a ≤ key b := ⟨fun a b => le_total (key a) (key b)⟩
  have trans : IsTrans α fun a b : α => key a ≤ key b := ⟨fun _ _ _ h1 h2 => le_trans h1 h2⟩
  have equal : (ofKey key k xs).Pairwise fun a b => key a ≤ key b := by
    refine List.pairwise_of_forall_mem_list ?_
    intro a ha b hb
    simp only [ofKey, List.mem_filter, decide_eq_true_eq] at ha hb
    exact le_of_eq (ha.2.trans hb.2.symm)
  have kept : (ofKey key k xs).Sublist (sortedBy key xs) :=
    List.sublist_insertionSort equal List.filter_sublist
  have again := kept.filter fun a => key a = k
  have sizes : (ofKey key k (sortedBy key xs)).length = (ofKey key k xs).length :=
    ((List.perm_insertionSort _ xs).filter _).length_eq
  refine (List.Sublist.eq_of_length ?_ sizes.symm).symm
  simpa [ofKey, List.filter_filter] using again

theorem groupBy_cons_ne_nil (a : α) (xs : List α) : groupBy key (a :: xs) ≠ [] := by
  unfold groupBy
  split
  · split <;> simp
  · simp

theorem groupBy_keys_from {xs : List α} {low : κ} (above : ∀ a ∈ xs, low ≤ key a) :
    ∀ p ∈ groupBy key xs, low ≤ p.1 := by
  induction xs with
  | nil => simp [groupBy]
  | cons a xs ih =>
    have rest := ih fun b hb => above b (List.mem_cons_of_mem a hb)
    have first := above a List.mem_cons_self
    intro p hp
    unfold groupBy at hp
    split at hp
    · rename_i k g gs eq
      have hk : low ≤ k := rest (k, g) (by simp [eq])
      split at hp
      · rcases List.mem_cons.mp hp with rfl | hp
        · exact hk
        · exact rest p (by simp [eq, hp])
      · rcases List.mem_cons.mp hp with rfl | hp
        · exact first
        · exact rest p (by simpa [eq] using hp)
    · rcases List.mem_singleton.mp hp with rfl
      exact first

theorem groupBy_keys_increase {xs : List α} (sorted : xs.Pairwise fun a b => key a ≤ key b) :
    (groupBy key xs).Pairwise fun p q => p.1 < q.1 := by
  induction xs with
  | nil => simp [groupBy]
  | cons a xs ih =>
    obtain ⟨below, tail⟩ := List.pairwise_cons.mp sorted
    have rest := ih tail
    have low := groupBy_keys_from key below
    unfold groupBy
    split
    · rename_i k g gs eq
      rw [eq] at rest low
      obtain ⟨headBelow, _⟩ := List.pairwise_cons.mp rest
      have hk : key a ≤ k := low (k, g) List.mem_cons_self
      split
      · exact List.pairwise_cons.mpr ⟨headBelow, (List.pairwise_cons.mp rest).2⟩
      · rename_i ne
        have strict : key a < k := lt_of_le_of_ne hk ne
        refine List.pairwise_cons.mpr ⟨?_, rest⟩
        intro q hq
        rcases List.mem_cons.mp hq with rfl | hq
        · exact strict
        · exact lt_trans strict (headBelow q hq)
    · exact List.pairwise_singleton _ _

theorem ofKey_own (a : α) (xs : List α) :
    ofKey key (key a) (a :: xs) = a :: ofKey key (key a) xs := by
  simp [ofKey]

theorem ofKey_other {a : α} {k : κ} (other : key a ≠ k) (xs : List α) :
    ofKey key k (a :: xs) = ofKey key k xs := by
  simp [ofKey, other]

theorem mem_front_group {a : α} {k : κ} {g h : List α} {gs : List (κ × List α)}
    (apart : ∀ p ∈ gs, k < p.1) : (k, g) ∈ (k, a :: h) :: gs ↔ g = a :: h ∧ g ≠ [] := by
  constructor
  · intro member
    rcases List.mem_cons.mp member with same | later
    · cases same
      exact ⟨rfl, List.cons_ne_nil a h⟩
    · exact absurd (apart _ later) (lt_irrefl k)
  · rintro ⟨rfl, _⟩
    exact List.mem_cons_self

theorem mem_groupBy_sorted {xs : List α} (sorted : xs.Pairwise fun a b => key a ≤ key b)
    (k : κ) (g : List α) :
    (k, g) ∈ groupBy key xs ↔ g = ofKey key k xs ∧ g ≠ [] := by
  induction xs generalizing k g with
  | nil => simp [groupBy, ofKey]
  | cons a xs ih =>
    obtain ⟨below, tail⟩ := List.pairwise_cons.mp sorted
    have ih := ih tail
    have increase := groupBy_keys_increase key tail
    have low := groupBy_keys_from key below
    unfold groupBy
    split
    · rename_i first h gs eq
      rw [eq] at ih increase low
      have headClass := ((ih first h).mp List.mem_cons_self).1
      obtain ⟨apart, _⟩ := List.pairwise_cons.mp increase
      split
      · rename_i same
        subst same
        by_cases own : key a = k
        · subst own
          rw [mem_front_group apart, ofKey_own, ← headClass]
        · rw [ofKey_other key own, ← ih k g]
          simp [Ne.symm own]
      · rename_i ne
        have strict : key a < first := lt_of_le_of_ne (low (first, h) List.mem_cons_self) ne
        have alone : ∀ p ∈ (first, h) :: gs, key a < p.1 := by
          intro p member
          rcases List.mem_cons.mp member with rfl | later
          · exact strict
          · exact lt_trans strict (apart p later)
        by_cases own : key a = k
        · subst own
          have none : ofKey key (key a) xs = [] := by
            by_contra some
            exact lt_irrefl _ (alone _ ((ih (key a) _).mpr ⟨rfl, some⟩))
          rw [mem_front_group alone, ofKey_own, none]
        · rw [ofKey_other key own, ← ih k g]
          simp [Ne.symm own]
    · rename_i eq
      have empty : xs = [] := by
        cases xs with
        | nil => rfl
        | cons b ys => exact absurd eq (groupBy_cons_ne_nil key b ys)
      subst empty
      by_cases own : key a = k
      · subst own
        rw [mem_front_group (List.forall_mem_nil _), ofKey_own]
        rfl
      · rw [ofKey_other key own]
        simp [ofKey, Ne.symm own]

/-- The groups of the stably sorted list are the classes of the unsorted one. -/
theorem mem_groups (xs : List α) (k : κ) (g : List α) :
    (k, g) ∈ groupBy key (sortedBy key xs) ↔ g = ofKey key k xs ∧ g ≠ [] := by
  rw [mem_groupBy_sorted key (sortedBy_pairwise key xs), ofKey_sortedBy]

theorem groups_keys_increase (xs : List α) :
    (groupBy key (sortedBy key xs)).Pairwise fun p q => p.1 < q.1 :=
  groupBy_keys_increase key (sortedBy_pairwise key xs)

theorem mem_enumerate {xs : List α} {n : Nat} {a : α} :
    (n, a) ∈ enumerate xs ↔ xs[n]? = some a := by
  simp [enumerate, List.mem_zipIdx_iff_getElem?]

theorem enumerate_nodup (xs : List α) : ((enumerate xs).map Prod.fst).Nodup := by
  simp [enumerate, Function.comp_def, List.nodup_range']

theorem mem_slots {xs : List α} {n : Nat} {a : α} :
    (n, a) ∈ slots key xs ↔ (ofKey key (key a) xs)[n]? = some a := by
  simp only [slots, List.mem_flatMap]
  constructor
  · rintro ⟨⟨k, g⟩, hg, hn⟩
    obtain ⟨rfl, _⟩ := (mem_groups key xs k g).mp hg
    have at_n := mem_enumerate.mp hn
    have member := List.mem_of_getElem? at_n
    have hk : key a = k := by simpa [ofKey] using (List.mem_filter.mp member).2
    simpa [hk] using at_n
  · intro at_n
    have member := List.mem_of_getElem? at_n
    refine ⟨(key a, ofKey key (key a) xs), ?_, mem_enumerate.mpr at_n⟩
    exact (mem_groups key xs _ _).mpr ⟨rfl, List.ne_nil_of_mem member⟩

theorem slots_nodup (xs : List α) :
    ((slots key xs).map fun p => (key p.2, p.1)).Nodup := by
  have classKey : ∀ p ∈ groupBy key (sortedBy key xs), ∀ a ∈ p.2, key a = p.1 := by
    rintro ⟨k, g⟩ hp a ha
    obtain ⟨rfl, _⟩ := (mem_groups key xs k g).mp hp
    simpa [ofKey] using (List.mem_filter.mp ha).2
  simp only [slots, List.map_flatMap]
  refine List.nodup_flatMap.mpr ⟨?_, ?_⟩
  · intro p _
    refine List.Nodup.of_map Prod.snd ?_
    simpa [Function.comp_def] using enumerate_nodup p.2
  · refine (groups_keys_increase key xs).imp_of_mem ?_
    intro p q hp hq less x hx hy
    simp only [List.mem_map] at hx hy
    obtain ⟨⟨n, a⟩, ha, rfl⟩ := hx
    obtain ⟨⟨m, b⟩, hb, same⟩ := hy
    have ka := classKey p hp a (List.mem_of_getElem? (mem_enumerate.mp ha))
    have kb := classKey q hq b (List.mem_of_getElem? (mem_enumerate.mp hb))
    have := congrArg Prod.fst same
    simp only [ka, kb] at this
    exact absurd this (ne_of_gt less)

theorem enumerate_snd (xs : List α) : (enumerate xs).map Prod.snd = xs := by
  simp [enumerate, Function.comp_def]

theorem groupBy_flatten (xs : List α) : ((groupBy key xs).flatMap fun g => g.2) = xs := by
  induction xs with
  | nil => rfl
  | cons a xs ih =>
    unfold groupBy
    split
    · rename_i k g rest eq
      rw [eq] at ih
      split <;> simpa using ih
    · rename_i eq
      rw [eq] at ih
      simpa using ih

/-- Slots number every element exactly once. -/
theorem slots_perm (xs : List α) : ((slots key xs).map Prod.snd).Perm xs := by
  have flat : (slots key xs).map Prod.snd = sortedBy key xs := by
    simp only [slots, List.map_flatMap, enumerate_snd, groupBy_flatten]
  rw [flat]
  exact List.perm_insertionSort _ xs

end StableGroups
