import WindowsGaming.Library.Journals
import WindowsGaming.Library.Runs

/- A requester that remembers only its latest request. A peer answers the requests in
   order over a first-in first-out pipe, and an answer that comes back goes to whatever
   request is remembered. -/
namespace LatestRequest
open Journals
variable {R A : Type*}

structure Exchange (R A : Type*) where
  requests : List R
  answers : List A
  arrived : Nat
  slot : Option Nat
  given : List (Nat × A)

def Exchange.new : Exchange R A := ⟨[], [], 0, none, []⟩

inductive Label (R A : Type*) where
  | ask (request : R)
  | answer (a : A)
  | arrive

def exchange (x : Exchange R A) : Label R A → Option (Exchange R A)
  | .ask request =>
    some { x with requests := x.requests ++ [request], slot := some x.requests.length }
  | .answer a =>
    if x.answers.length < x.requests.length then some { x with answers := x.answers ++ [a] }
    else none
  | .arrive =>
    match x.answers[x.arrived]? with
    | none => none
    | some a =>
      let given := (x.slot.map fun i => (i, a)).toList
      some { x with arrived := x.arrived + 1, slot := none, given := x.given ++ given }

/-- What was given is the answer to that request, and every answer that came back was given
    to its request. -/
def Paired (x : Exchange R A) : Prop :=
  (∀ p ∈ x.given, x.answers[p.1]? = some p.2) ∧ ∀ i < x.arrived, ∃ a, (i, a) ∈ x.given

def serial (x : Exchange R A) : Label R A → Bool
  | .ask _ => x.slot.isNone
  | _ => true

structure OneOut (x : Exchange R A) : Prop where
  paired : Paired x
  answered : x.arrived ≤ x.answers.length ∧ x.answers.length ≤ x.requests.length
  slot : x.slot = if x.arrived < x.requests.length then some x.arrived else none
  single : x.requests.length ≤ x.arrived + 1

theorem oneOut_new : OneOut (Exchange.new : Exchange R A) where
  paired := by simp [Paired, Exchange.new]
  answered := ⟨Nat.le_refl 0, Nat.le_refl 0⟩
  slot := rfl
  single := Nat.zero_le _

section Steps
variable {x y : Exchange R A}

theorem oneOut_step {l : Label R A} (one : OneOut x) (ok : serial x l = true)
    (taken : exchange x l = some y) : OneOut y := by
  obtain ⟨⟨right, all⟩, ⟨fewer, bounded⟩, slot, single⟩ := one
  cases l with
  | ask request =>
    have idle : ¬ x.arrived < x.requests.length := by
      intro waiting
      rw [if_pos waiting] at slot
      simp [serial, slot] at ok
    cases taken
    refine ⟨⟨right, all⟩, ⟨fewer, ?_⟩, ?_, ?_⟩
    · simp only [List.length_append, List.length_singleton]
      omega
    · have last : x.requests.length = x.arrived := by omega
      simp [last]
    · simp only [List.length_append, List.length_singleton]
      omega
  | answer a =>
    simp only [exchange] at taken
    split at taken
    · rename_i open_request
      cases taken
      refine ⟨⟨?_, all⟩, ⟨?_, ?_⟩, slot, single⟩
      · intro p member
        exact getElem?_append_of_some _ (right p member)
      · simp only [List.length_append, List.length_singleton]
        omega
      · simp only [List.length_append, List.length_singleton]
        omega
    · cases taken
  | arrive =>
    simp only [exchange] at taken
    split at taken
    · cases taken
    · rename_i a at_arrived
      cases taken
      have inside := (List.getElem?_eq_some_iff.mp at_arrived).1
      have remembered : x.slot = some x.arrived := by
        rw [slot, if_pos (by omega)]
      have finished : ¬ x.arrived + 1 < x.requests.length := by omega
      have enough : x.requests.length ≤ x.arrived + 1 + 1 := by omega
      simp only [remembered, Option.map_some, Option.toList_some]
      refine ⟨⟨?_, ?_⟩, ⟨inside, bounded⟩, (if_neg finished).symm, enough⟩
      · intro p member
        rcases List.mem_append.mp member with old | new
        · exact right p old
        · rw [List.mem_singleton.mp new]
          exact at_arrived
      · intro i (below : i < x.arrived + 1)
        by_cases old : i < x.arrived
        · obtain ⟨b, member⟩ := all i old
          exact ⟨b, List.mem_append_left _ member⟩
        · have now : i = x.arrived := by omega
          exact ⟨a, by simp [now]⟩

theorem arrive_enabled {a : A} (at_arrived : x.answers[x.arrived]? = some a) :
    ∃ z, exchange x .arrive = some z := by
  simp [exchange, at_arrived]

theorem unpaired_arrival {i : Nat} (slot : x.slot = some i) (early : x.answers.length ≤ i)
    (arrived : exchange x .arrive = some y) : ¬ Paired y := by
  simp only [exchange, slot] at arrived
  split at arrived
  · cases arrived
  · rename_i b _
    cases arrived
    rintro ⟨right, _⟩
    have wrong := right (i, b) (by simp)
    have inside := (List.getElem?_eq_some_iff.mp wrong).1
    simp only at inside
    omega

/-- Overlapping requests break the pairing as soon as the next answer arrives. -/
theorem overlap_unpaired {request : R} (a : A) (one : OneOut x)
    (overlap : serial x (.ask request : Label R A) = false)
    (asked : exchange x (.ask request) = some y) :
    ∃ ls : List (Label R A), (ls = [.arrive] ∨ ls = [.answer a, .arrive]) ∧
      ∃ z, Runs.run exchange y ls = some z ∧ ¬ Paired z := by
  obtain ⟨_, ⟨fewer, bounded⟩, slot, single⟩ := one
  have waiting : x.arrived < x.requests.length := by
    by_contra idle
    rw [if_neg idle] at slot
    simp [serial, slot] at overlap
  have after : y.answers = x.answers ∧ y.arrived = x.arrived ∧
      y.slot = some x.requests.length ∧ y.requests.length = x.requests.length + 1 := by
    cases asked
    simp
  clear asked
  obtain ⟨answers, arrived, remembered, longer⟩ := after
  rw [← answers] at bounded fewer
  rw [← arrived] at fewer waiting
  by_cases answered : y.arrived < y.answers.length
  · obtain ⟨z, arrives⟩ := arrive_enabled (List.getElem?_eq_getElem answered)
    exact ⟨_, Or.inl rfl, z, by simp [arrives], unpaired_arrival remembered bounded arrives⟩
  · have level : y.answers.length = y.arrived := by omega
    have answering : exchange y (.answer a) = some { y with answers := y.answers ++ [a] } := by
      simp only [exchange]
      rw [if_pos (by omega)]
    have at_arrived : (y.answers ++ [a])[y.arrived]? = some a := by
      rw [← level, List.getElem?_concat_length]
    obtain ⟨z, arrives⟩ := arrive_enabled (x := { y with answers := y.answers ++ [a] }) at_arrived
    have early : (y.answers ++ [a]).length ≤ x.requests.length := by
      rw [List.length_append, List.length_singleton]
      omega
    refine ⟨_, Or.inr rfl, z, by simp [answering, arrives], ?_⟩
    exact unpaired_arrival (x := { y with answers := y.answers ++ [a] }) remembered early arrives

end Steps
end LatestRequest
