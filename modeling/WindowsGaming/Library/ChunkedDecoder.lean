import Mathlib.Algebra.BigOperators.Group.List.Basic
import Mathlib.Algebra.Order.Ring.Nat

/- A stream of frames that arrives in chunks, and a decoder that is called on what has
   arrived until it finds nothing. It also finds nothing in a frame that it skips, so a
   skipped frame holds back what follows it until the next chunk. -/
namespace ChunkedDecoder
variable {B M F : Type*}

/-- Decode until nothing is found; `none` when decoding fails or the fuel runs out. -/
def drain (decode : List B → Option (Option M × List B)) :
    Nat → List B → Option (List M × List B)
  | 0, _ => none
  | fuel + 1, buf =>
    match decode buf with
    | none => none
    | some (none, rest) => some ([], rest)
    | some (some m, rest) => (drain decode fuel rest).map fun (ms, last) => (m :: ms, last)

/-- What is found in a buffer and the chunks that are appended to it. -/
def feed (decode : List B → Option (Option M × List B)) (fuel : Nat) :
    List (List B) → List B → Option (List M × List B)
  | [], buf => some ([], buf)
  | chunk :: chunks, buf =>
    (drain decode fuel (buf ++ chunk)).bind fun (ms, rest) =>
      (feed decode fuel chunks rest).map fun (more, last) => (ms ++ more, last)

def Delivers (decode : List B → Option (Option M × List B)) (fuel : Nat) (chunks : List (List B))
    (ms : List M) : Prop :=
  ∃ rest, feed decode fuel chunks [] = some (ms, rest)

/-- The frames a decoder knows: a whole one is taken from the buffer, whether it holds a
    message or not, and a part of one is left there. -/
structure Framing (decode : List B → Option (Option M × List B)) (F : Type*) where
  bytes : F → List B
  yields : F → Option M
  nonempty : ∀ f, bytes f ≠ []
  whole : ∀ f rest, decode (bytes f ++ rest) = some (yields f, rest)
  part : ∀ f p, p <+: bytes f → p ≠ bytes f → decode p = some (none, p)
  empty : decode [] = some (none, [])

def Arrived (n : Nat) (cs : List Nat) (k length : Nat) : Prop :=
  k ≤ cs.length ∧ length ≤ n + (cs.take (cs.length - k)).sum

instance (n : Nat) (cs : List Nat) (k length : Nat) : Decidable (Arrived n cs k length) :=
  inferInstanceAs (Decidable (_ ∧ _))

section Arrived
variable {n c k length : Nat} {cs : List Nat}

theorem arrived_shift (d : Nat) : Arrived (n + d) cs k (length + d) ↔ Arrived n cs k length := by
  unfold Arrived
  omega

theorem arrived_next (few : k ≤ cs.length) :
    Arrived n (c :: cs) k length ↔ Arrived (n + c) cs k length := by
  have one_more : (c :: cs).length - k = cs.length - k + 1 := by
    simp only [List.length_cons]
    omega
  unfold Arrived
  rw [one_more, List.take_succ_cons, List.sum_cons, List.length_cons]
  omega

theorem arrived_wait (behind : n < length) :
    Arrived n (c :: cs) k length ↔ Arrived (n + c) cs k length := by
  by_cases few : k ≤ cs.length
  · exact arrived_next few
  · have none_left : (c :: cs).length - k = 0 := by
      simp only [List.length_cons]
      omega
    unfold Arrived
    rw [none_left, List.take_zero, List.sum_nil]
    omega

end Arrived

namespace Framing
variable {decode : List B → Option (Option M × List B)} (framing : Framing decode F)

def size (f : F) : Nat := (framing.bytes f).length

def good (f : F) : Bool := (framing.yields f).isSome

def stream (fs : List F) : List B := fs.flatMap framing.bytes

def messages (fs : List F) : List M := fs.filterMap framing.yields

def unread (n : Nat) : List F → List Nat → List F
  | [], _ => []
  | f :: fs, cs =>
    if framing.size f ≤ n then
      if framing.good f then unread (n - framing.size f) fs cs
      else
        match cs with
        | [] => fs
        | c :: cs => unread (n - framing.size f + c) fs cs
    else
      match cs with
      | [] => f :: fs
      | c :: cs => unread (n + c) (f :: fs) cs
termination_by fs cs => fs.length + cs.length

def skips : List F → Nat
  | [] => 0
  | f :: fs =>
    if fs.any framing.good then (if framing.good f then 0 else 1) + skips fs else 0

/-- A frame with a message in it or behind it has arrived when as many chunks are still to
    come as frames are skipped from it on. -/
def InTime (n : Nat) (cs : List Nat) : Nat → List F → Prop
  | _, [] => True
  | before, f :: fs =>
    ((f :: fs).any framing.good = true →
      Arrived n cs (framing.skips (f :: fs)) (before + framing.size f)) ∧
    InTime n cs (before + framing.size f) fs

instance decidableInTime (n : Nat) (cs : List Nat) :
    ∀ (before : Nat) (fs : List F), Decidable (framing.InTime n cs before fs)
  | _, [] => inferInstanceAs (Decidable True)
  | before, f :: fs =>
    have : Decidable (framing.InTime n cs (before + framing.size f) fs) :=
      decidableInTime n cs _ fs
    inferInstanceAs (Decidable (_ ∧ _))

theorem size_pos (f : F) : 0 < framing.size f := List.length_pos_iff.mpr (framing.nonempty f)

theorem skips_cons_le (f : F) (fs : List F) : framing.skips fs ≤ framing.skips (f :: fs) := by
  by_cases more : fs.any framing.good = true
  · simp only [skips, more, if_true]
    omega
  · cases fs with
    | nil => exact Nat.zero_le _
    | cons g gs =>
      have none_left : gs.any framing.good = false := by
        simp only [List.any_cons, Bool.or_eq_true, not_or] at more
        simpa using more.2
      simp [skips, none_left]

theorem skips_none {fs : List F} (done : fs.any framing.good = false) : framing.skips fs = 0 := by
  cases fs with
  | nil => rfl
  | cons f fs =>
    simp only [List.any_cons, Bool.or_eq_false_iff] at done
    simp [skips, done.2]

section InTime
variable {framing} {n before : Nat} {cs : List Nat} {fs : List F}

theorem inTime_none (done : fs.any framing.good = false) : framing.InTime n cs before fs := by
  induction fs generalizing before with
  | nil => trivial
  | cons f fs ih =>
    refine ⟨fun more => absurd done (by simp [more]), ih ?_⟩
    simp only [List.any_cons, Bool.or_eq_false_iff] at done
    exact done.2

theorem inTime_skips (inTime : framing.InTime n cs before fs) : framing.skips fs ≤ cs.length := by
  by_cases more : fs.any framing.good = true
  · cases fs with
    | nil => exact Nat.zero_le _
    | cons f fs => exact (inTime.1 more).1
  · rw [framing.skips_none (by simpa using more)]
    exact Nat.zero_le _

theorem inTime_shift (d : Nat) :
    framing.InTime (n + d) cs (before + d) fs ↔ framing.InTime n cs before fs := by
  induction fs generalizing before with
  | nil => exact Iff.rfl
  | cons f fs ih => simp only [InTime, Nat.add_right_comm before d, ih, arrived_shift]

theorem inTime_next {c : Nat} (few : framing.skips fs ≤ cs.length) :
    framing.InTime n (c :: cs) before fs ↔ framing.InTime (n + c) cs before fs := by
  induction fs generalizing before with
  | nil => exact Iff.rfl
  | cons f fs ih =>
    have fewer := Nat.le_trans (framing.skips_cons_le f fs) few
    simp only [InTime, ih fewer, arrived_next few]

theorem inTime_wait {c : Nat} (behind : n ≤ before) :
    framing.InTime n (c :: cs) before fs ↔ framing.InTime (n + c) cs before fs := by
  induction fs generalizing before with
  | nil => exact Iff.rfl
  | cons f fs ih =>
    have ends : n < before + framing.size f := by
      have size := framing.size_pos f
      omega
    simp only [InTime, ih (Nat.le_of_lt ends), arrived_wait ends]

theorem inTime_consumed {f : F} (whole : framing.size f ≤ n) :
    framing.InTime n cs (0 + framing.size f) fs ↔ framing.InTime (n - framing.size f) cs 0 fs := by
  have shifted : framing.InTime (n - framing.size f + framing.size f) cs (0 + framing.size f) fs ↔
      framing.InTime (n - framing.size f) cs 0 fs := inTime_shift (framing.size f)
  rwa [Nat.sub_add_cancel whole] at shifted

theorem inTime_good {f : F} (whole : framing.size f ≤ n) (good : framing.good f = true) :
    framing.InTime n cs 0 (f :: fs) ↔ framing.InTime (n - framing.size f) cs 0 fs := by
  rw [← inTime_consumed whole]
  constructor
  · exact And.right
  · intro later
    have few := inTime_skips later
    refine ⟨fun _ => ⟨?_, by omega⟩, later⟩
    simp only [skips, good, if_true]
    split <;> omega

theorem inTime_bad {f : F} {c : Nat} (whole : framing.size f ≤ n) (bad : framing.good f = false) :
    framing.InTime n (c :: cs) 0 (f :: fs) ↔
      framing.InTime (n - framing.size f + c) cs 0 fs := by
  by_cases more : fs.any framing.good = true
  · have skipped : framing.skips (f :: fs) = 1 + framing.skips fs := by
      simp [skips, more, bad]
    constructor
    · rintro ⟨first, later⟩
      have few := (first (by simp [more])).1
      rw [skipped, List.length_cons] at few
      rw [← inTime_next (by omega)]
      exact (inTime_consumed whole).mp later
    · intro later
      have few := inTime_skips later
      rw [← inTime_next few, ← inTime_consumed whole] at later
      refine ⟨fun _ => ⟨?_, by omega⟩, later⟩
      rw [skipped, List.length_cons]
      omega
  · have done : fs.any framing.good = false := by simpa using more
    have all_done : (f :: fs).any framing.good = false := by simp [bad, done]
    exact iff_of_true (inTime_none all_done) (inTime_none done)

theorem inTime_last {f : F} (stop : framing.good f = false ∨ n < framing.size f) :
    framing.InTime n [] 0 (f :: fs) ↔ (f :: fs).any framing.good = false := by
  constructor
  · intro inTime
    by_cases more : (f :: fs).any framing.good = true
    · obtain ⟨few, arrived⟩ := inTime.1 more
      simp only [List.length_nil, Nat.le_zero, List.take_nil, List.sum_nil] at few arrived
      rcases stop with bad | part
      · simp only [List.any_cons, bad, Bool.false_or] at more
        simp [skips, more, bad] at few
      · omega
    · simpa using more
  · exact inTime_none

end InTime

theorem unread_iff (n : Nat) (fs : List F) (cs : List Nat) :
    (framing.unread n fs cs).any framing.good = false ↔ framing.InTime n cs 0 fs := by
  fun_induction unread framing n fs cs with
  | case1 n cs => simp [InTime]
  | case2 n f fs cs whole good ih => rw [ih, inTime_good whole good]
  | case3 n f fs whole bad =>
    have stops : framing.good f = false := by simpa using bad
    rw [inTime_last (Or.inl stops)]
    simp [stops]
  | case4 n f fs whole bad c cs ih =>
    rw [ih, inTime_bad whole (by simpa using bad)]
  | case5 n f fs part => rw [inTime_last (Or.inr (by omega))]
  | case6 n f fs part c cs ih =>
    have ends : n < 0 + framing.size f := by omega
    rw [ih]
    simp only [InTime, arrived_wait ends, inTime_wait (Nat.le_of_lt ends)]

end Framing

def resume (decode : List B → Option (Option M × List B)) (fuel k : Nat) (buf : List B)
    (chunks : List (List B)) : Option (List M × List B) :=
  (drain decode k buf).bind fun (ms, rest) =>
    (feed decode fuel chunks rest).map fun (more, last) => (ms ++ more, last)

section Resume
variable {decode : List B → Option (Option M × List B)} {fuel k : Nat} {buf rest : List B}
  {chunks : List (List B)}

theorem resume_found {m : M} (found : decode buf = some (some m, rest)) :
    resume decode fuel (k + 1) buf chunks =
      (resume decode fuel k rest chunks).map fun (ms, last) => (m :: ms, last) := by
  simp only [resume, drain, found]
  cases drain decode k rest with
  | none => rfl
  | some drained =>
    cases more : feed decode fuel chunks drained.2 <;> simp [more]

theorem resume_nothing (positive : 0 < k) (nothing : decode buf = some (none, rest)) :
    resume decode fuel k buf chunks = feed decode fuel chunks rest := by
  obtain ⟨k, rfl⟩ := Nat.exists_eq_add_one.mpr positive
  simp only [resume, drain, nothing]
  cases more : feed decode fuel chunks rest <;> simp [more]

end Resume

namespace Framing
variable {decode : List B → Option (Option M × List B)} (framing : Framing decode F)

def Unfinished (decode : List B → Option (Option M × List B)) (tail : List B) : Prop :=
  ∀ p, p <+: tail → decode p = some (none, p)

include framing in
theorem unfinished_nil : Unfinished decode [] := by
  intro p part
  cases List.prefix_nil.mp part
  exact framing.empty

theorem feed_unfinished {tail : List B} (unfinished : Unfinished decode tail) {fuel : Nat}
    (positive : 0 < fuel) (chunks : List (List B)) (buf : List B)
    (cut : buf ++ chunks.flatten = tail) : feed decode fuel chunks buf = some ([], tail) := by
  induction chunks generalizing buf with
  | nil => simpa [feed] using cut
  | cons chunk chunks ih =>
    have arrived : (buf ++ chunk) ++ chunks.flatten = tail := by simpa using cut
    have nothing := unfinished (buf ++ chunk) ⟨_, arrived⟩
    exact (resume_nothing positive nothing).trans (ih _ arrived)

section Front
variable {f : F} {fs : List F} {tail buf rest : List B}

theorem whole_front (cut : buf ++ rest = framing.stream (f :: fs) ++ tail)
    (whole : framing.size f ≤ buf.length) :
    ∃ behind, buf = framing.bytes f ++ behind ∧ behind ++ rest = framing.stream fs ++ tail ∧
      framing.size f + behind.length = buf.length := by
  simp only [stream, List.flatMap_cons, List.append_assoc] at cut
  have front : framing.bytes f <+: buf :=
    List.prefix_of_prefix_length_le ⟨_, cut.symm⟩ ⟨_, rfl⟩ whole
  obtain ⟨behind, rfl⟩ := front
  rw [List.append_assoc] at cut
  exact ⟨behind, rfl, List.append_cancel_left cut, List.length_append.symm⟩

theorem decode_front (cut : buf ++ rest = framing.stream (f :: fs) ++ tail)
    (whole : framing.size f ≤ buf.length) :
    ∃ behind, decode buf = some (framing.yields f, behind) ∧
      behind ++ rest = framing.stream fs ++ tail ∧
      framing.size f + behind.length = buf.length := by
  obtain ⟨behind, rfl, later, split⟩ := framing.whole_front cut whole
  exact ⟨behind, framing.whole f behind, later, split⟩

theorem part_front (cut : buf ++ rest = framing.stream (f :: fs) ++ tail)
    (part : buf.length < framing.size f) : decode buf = some (none, buf) := by
  simp only [stream, List.flatMap_cons, List.append_assoc] at cut
  have front : buf <+: framing.bytes f :=
    List.prefix_of_prefix_length_le ⟨_, cut⟩ ⟨_, rfl⟩ (Nat.le_of_lt part)
  apply framing.part f buf front
  rintro rfl
  exact Nat.lt_irrefl _ part

end Front

theorem resume_unread {tail : List B} (unfinished : Unfinished decode tail) {fuel : Nat}
    (n : Nat) (fs : List F) (cs : List Nat) (k : Nat) (buf : List B) (chunks : List (List B))
    (buffered : buf.length = n) (sizes : chunks.map List.length = cs)
    (cut : buf ++ chunks.flatten = framing.stream fs ++ tail) (some_left : n < k)
    (enough : (buf ++ chunks.flatten).length < fuel) :
    ∃ found, resume decode fuel k buf chunks =
        some (found, framing.stream (framing.unread n fs cs) ++ tail) ∧
      found ++ framing.messages (framing.unread n fs cs) = framing.messages fs := by
  fun_induction unread framing n fs cs generalizing k buf chunks with
  | case1 n cs =>
    have nothing := unfinished buf ⟨_, cut⟩
    refine ⟨[], ?_, rfl⟩
    rw [resume_nothing (Nat.zero_lt_of_lt some_left) nothing]
    exact feed_unfinished unfinished (Nat.zero_lt_of_lt enough) chunks buf cut
  | case2 n f fs cs whole good ih =>
    obtain ⟨k, rfl⟩ := Nat.exists_eq_add_one.mpr (Nat.zero_lt_of_lt some_left)
    rw [List.length_append] at enough
    obtain ⟨behind, taken, cut', split⟩ := framing.decode_front cut (by omega)
    obtain ⟨m, found⟩ := Option.isSome_iff_exists.mp good
    rw [found] at taken
    have pos := framing.size_pos f
    obtain ⟨ms, later, all⟩ := ih k behind chunks (by omega) sizes cut' (by omega)
      (by rw [List.length_append]; omega)
    refine ⟨m :: ms, ?_, ?_⟩
    · rw [resume_found taken, later]
      rfl
    · simp only [messages, List.filterMap_cons, found, List.cons_append] at all ⊢
      rw [all]
  | case3 n f fs whole bad =>
    obtain ⟨behind, taken, cut', split⟩ := framing.decode_front cut (by omega)
    have skipped : framing.yields f = none := by simpa [good] using bad
    rw [skipped] at taken
    cases List.map_eq_nil_iff.mp sizes
    refine ⟨[], ?_, by simp [messages, skipped]⟩
    rw [resume_nothing (Nat.zero_lt_of_lt some_left) taken]
    simpa [feed] using cut'
  | case4 n f fs whole bad c cs ih =>
    rw [List.length_append] at enough
    obtain ⟨behind, taken, cut', split⟩ := framing.decode_front cut (by omega)
    have skipped : framing.yields f = none := by simpa [good] using bad
    rw [skipped] at taken
    obtain ⟨chunk, chunks, rfl, rfl, later_sizes⟩ := List.map_eq_cons_iff.mp sizes
    rw [List.flatten_cons, ← List.append_assoc] at cut'
    rw [List.flatten_cons, List.length_append] at enough
    have arrived : (behind ++ chunk).length = n - framing.size f + chunk.length := by
      rw [List.length_append]
      omega
    obtain ⟨ms, later, all⟩ := ih fuel (behind ++ chunk) chunks arrived later_sizes cut' (by omega)
      (by rw [List.length_append]; omega)
    refine ⟨ms, ?_, by simpa [messages, skipped] using all⟩
    rw [resume_nothing (Nat.zero_lt_of_lt some_left) taken]
    exact later
  | case5 n f fs part =>
    subst buffered
    cases List.map_eq_nil_iff.mp sizes
    refine ⟨[], ?_, rfl⟩
    rw [resume_nothing (Nat.zero_lt_of_lt some_left) (framing.part_front cut (by omega))]
    simpa [feed] using cut
  | case6 n f fs part c cs ih =>
    subst buffered
    have nothing := framing.part_front cut (by omega)
    obtain ⟨chunk, chunks, rfl, rfl, later_sizes⟩ := List.map_eq_cons_iff.mp sizes
    simp only [List.flatten_cons, ← List.append_assoc, List.length_append] at cut enough
    obtain ⟨ms, later, all⟩ := ih fuel (buf ++ chunk) chunks (by simp) later_sizes cut (by omega)
      (by simp only [List.length_append]; omega)
    refine ⟨ms, ?_, all⟩
    rw [resume_nothing (Nat.zero_lt_of_lt some_left) nothing]
    exact later

theorem feed_unread {fs : List F} {tail : List B} {chunks : List (List B)} {fuel : Nat}
    (unfinished : Unfinished decode tail) (cut : chunks.flatten = framing.stream fs ++ tail)
    (enough : chunks.flatten.length < fuel) :
    ∃ found, feed decode fuel chunks [] =
        some (found, framing.stream (framing.unread 0 fs (chunks.map List.length)) ++ tail) ∧
      found ++ framing.messages (framing.unread 0 fs (chunks.map List.length)) =
        framing.messages fs := by
  obtain ⟨found, resumed, all⟩ := framing.resume_unread unfinished 0 fs _ 1 [] chunks rfl rfl cut
    Nat.one_pos enough
  rw [resume_nothing Nat.one_pos framing.empty] at resumed
  exact ⟨found, resumed, all⟩

theorem messages_eq_nil (fs : List F) :
    framing.messages fs = [] ↔ fs.any framing.good = false := by
  simp [messages, good, List.filterMap_eq_nil_iff]

theorem delivers_iff {fs : List F} {tail : List B} {chunks : List (List B)} {fuel : Nat}
    (unfinished : Unfinished decode tail) (cut : chunks.flatten = framing.stream fs ++ tail)
    (enough : chunks.flatten.length < fuel) :
    Delivers decode fuel chunks (framing.messages fs) ↔
      framing.InTime 0 (chunks.map List.length) 0 fs := by
  obtain ⟨found, fed, all⟩ := framing.feed_unread unfinished cut enough
  rw [← framing.unread_iff, ← framing.messages_eq_nil, ← all]
  constructor
  · rintro ⟨rest, delivered⟩
    rw [fed] at delivered
    simpa using congrArg (Option.map Prod.fst) delivered
  · intro nothing
    rw [nothing, List.append_nil]
    exact ⟨_, fed⟩

theorem unread_subset (n : Nat) (fs : List F) (cs : List Nat) : framing.unread n fs cs ⊆ fs := by
  fun_induction unread framing n fs cs with
  | case1 n cs => exact List.Subset.refl []
  | case2 n f fs cs whole good ih => exact List.subset_cons_of_subset f ih
  | case3 n f fs whole bad => exact List.subset_cons_self f fs
  | case4 n f fs whole bad c cs ih => exact List.subset_cons_of_subset f ih
  | case5 n f fs part => exact List.Subset.refl (f :: fs)
  | case6 n f fs part c cs ih => exact ih

theorem skips_good {fs : List F} (all : ∀ f ∈ fs, framing.good f = true) :
    framing.skips fs = 0 := by
  induction fs with
  | nil => rfl
  | cons f fs ih =>
    have rest := ih fun g member => all g (List.mem_cons_of_mem f member)
    simp [skips, all f List.mem_cons_self, rest]

theorem inTime_all_good {fs : List F} (all : ∀ f ∈ fs, framing.good f = true) {n before : Nat}
    {cs : List Nat} (enough : before + (framing.stream fs).length ≤ n + cs.sum) :
    framing.InTime n cs before fs := by
  induction fs generalizing before with
  | nil => trivial
  | cons f fs ih =>
    simp only [stream, List.flatMap_cons, List.length_append] at enough
    refine ⟨fun _ => ?_, ih (fun g member => all g (List.mem_cons_of_mem f member)) ?_⟩
    · rw [framing.skips_good all]
      refine ⟨Nat.zero_le _, ?_⟩
      rw [Nat.sub_zero, List.take_length, size]
      omega
    · rw [size, stream]
      omega

theorem feed_all_good {fs : List F} (all : ∀ f ∈ fs, framing.good f = true)
    {chunks : List (List B)} {fuel : Nat} (cut : chunks.flatten = framing.stream fs)
    (enough : chunks.flatten.length < fuel) :
    feed decode fuel chunks [] = some (framing.messages fs, []) := by
  have total : (framing.stream fs).length = (chunks.map List.length).sum := by
    rw [← cut, List.length_flatten]
  have inTime : framing.InTime 0 (chunks.map List.length) 0 fs := by
    apply framing.inTime_all_good all
    omega
  have no_good := (framing.unread_iff _ _ _).mpr inTime
  have nothing : framing.unread 0 fs (chunks.map List.length) = [] := by
    rw [List.eq_nil_iff_forall_not_mem]
    intro f member
    have bad := List.any_eq_false.mp no_good f member
    exact bad (all f (framing.unread_subset _ _ _ member))
  obtain ⟨found, fed, complete⟩ := framing.feed_unread framing.unfinished_nil (by simpa using cut) enough
  rw [nothing] at fed complete
  simp only [messages, List.filterMap_nil, List.append_nil] at complete
  rw [fed, complete]
  rfl

def received : Nat → List F → List F
  | _, [] => []
  | n, f :: fs => if framing.size f ≤ n then f :: received (n - framing.size f) fs else []

theorem received_cut {fs : List F} {p : List B} (part : p <+: framing.stream fs) :
    ∃ tail, Unfinished decode tail ∧ p = framing.stream (framing.received p.length fs) ++ tail := by
  induction fs generalizing p with
  | nil =>
    cases List.prefix_nil.mp part
    exact ⟨[], framing.unfinished_nil, rfl⟩
  | cons f fs ih =>
    obtain ⟨behind, cut⟩ := part
    have cut' : p ++ behind = framing.stream (f :: fs) ++ [] := by simpa using cut
    by_cases whole : framing.size f ≤ p.length
    · obtain ⟨rest, rfl, later, split⟩ := framing.whole_front cut' whole
      obtain ⟨tail, unfinished, same⟩ := ih (p := rest) ⟨behind, by simpa using later⟩
      refine ⟨tail, unfinished, ?_⟩
      have left : (framing.bytes f ++ rest).length - framing.size f = rest.length := by omega
      simp only [received, whole, if_true, left, stream, List.flatMap_cons, List.append_assoc]
        at same ⊢
      rw [← same]
    · refine ⟨p, ?_, by simp [received, whole, stream]⟩
      rintro q ⟨more, rfl⟩
      rw [List.append_assoc] at cut'
      refine framing.part_front cut' ?_
      rw [List.length_append] at whole
      omega

end Framing

end ChunkedDecoder
