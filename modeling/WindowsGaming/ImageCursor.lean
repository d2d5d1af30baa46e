import Mathlib.Algebra.Order.Ring.Nat
import Mathlib.Algebra.Ring.Int.Defs
import Mathlib.Data.List.Infix
import WindowsGaming.Library.Simulations

/- The cursor over the buffers of an image from the clipboard, which it reads as if they were one.
   Overflow of a machine integer is `none`, as is a panic. -/
namespace ImageCursor
open Simulations

def i64Max : Nat := 2 ^ 63 - 1

def u64Max : Nat := 2 ^ 64 - 1

def asI64 (n : Nat) : Int := if n ≤ i64Max then n else n - 2 ^ 64

def asU64 (i : Int) : Nat := (i % 2 ^ 64).toNat

def addI64 (a b : Int) : Option Int := if -2 ^ 63 ≤ a + b ∧ a + b ≤ i64Max then some (a + b) else none

inductive SeekFrom where
  | start (i : Nat)
  | current (i : Int)
  | fromEnd (i : Int)
  deriving DecidableEq, Repr

structure MultiCursor where
  bufs : List (List UInt8)
  position : Nat
  deriving DecidableEq, Repr

/-- The loop of `read`. A position inside a buffer is a `usize`, since the buffer's length is. -/
def readFrom (len : Nat) : List (List UInt8) → Nat → Option (List UInt8)
  | [], _ => none
  | b :: bufs, pos =>
    if pos < b.length then some ((b.drop pos).take (min len (b.length - pos)))
    else readFrom len bufs (pos - b.length)

def fillFrom : List (List UInt8) → Nat → List UInt8
  | [], _ => []
  | b :: bufs, pos => if pos < b.length then b.drop pos else fillFrom bufs (pos - b.length)

namespace MultiCursor

def consume (amt : Nat) (c : MultiCursor) : Option MultiCursor :=
  if c.position + amt ≤ u64Max then some { c with position := c.position + amt } else none

def read (len : Nat) (c : MultiCursor) : Option (MultiCursor × List UInt8) :=
  match readFrom len c.bufs c.position with
  | some buf => (c.consume buf.length).map fun next => (next, buf)
  | none => some (c, [])

def fillBuf (c : MultiCursor) : List UInt8 := fillFrom c.bufs c.position

def totalLen (c : MultiCursor) : Nat := c.bufs.foldl (fun sum b => sum + b.length) 0

def seek (pos : SeekFrom) (c : MultiCursor) : Option (MultiCursor × Nat) :=
  let position := match pos with
    | .start i => some i
    | .current i => (addI64 (asI64 c.position) i).map asU64
    | .fromEnd i => if c.totalLen ≤ i64Max then (addI64 c.totalLen i).map asU64 else none
  position.map fun position => ({ c with position }, position)

def readToEnd : List Nat → MultiCursor → Option (List UInt8)
  | [], _ => none
  | len :: lens, c => (c.read len).bind fun (next, buf) =>
    if buf = [] then some [] else (readToEnd lens next).map fun rest => buf ++ rest

end MultiCursor

inductive Op where
  | read (len : Nat)
  | fillBuf
  | consume (amt : Nat)
  | seek (pos : SeekFrom)
  deriving DecidableEq, Repr

inductive Answer where
  | read (buf : List UInt8)
  | fillBuf (buf : List UInt8)
  | consumed
  | position (pos : Nat)
  deriving DecidableEq, Repr

def cursorStep (c : MultiCursor) : Op → Option (MultiCursor × Answer)
  | .read len => (c.read len).map fun (next, buf) => (next, .read buf)
  | .fillBuf => some (c, .fillBuf c.fillBuf)
  | .consume amt => (c.consume amt).map fun next => (next, .consumed)
  | .seek pos => (c.seek pos).map fun (next, pos) => (next, .position pos)

def target (length position : Nat) : SeekFrom → Int
  | .start i => i
  | .current i => position + i
  | .fromEnd i => length + i

def Right (flat : List UInt8) (position : Nat) : Op → Answer → Prop
  | .read len, .read buf => buf <+: flat.drop position ∧ buf.length ≤ len ∧
      (buf = [] → len = 0 ∨ flat.length ≤ position)
  | .fillBuf, .fillBuf buf => buf <+: flat.drop position ∧ (buf = [] → flat.length ≤ position)
  | .consume _, .consumed => True
  | .seek pos, .position new => (new : Int) = target flat.length position pos
  | _, _ => False

def advance (position : Nat) : Op → Answer → Nat
  | .read _, .read buf => position + buf.length
  | .consume amt, _ => position + amt
  | .seek _, .position new => new
  | _, _ => position

def Allowed (flat : List UInt8) (c : MultiCursor) : Op → Prop
  | .consume amt => amt ≤ c.fillBuf.length
  | .seek pos => 0 ≤ target flat.length c.position pos ∧ target flat.length c.position pos ≤ i64Max
  | _ => True

def flatCursor (bufs : List (List UInt8)) : Spec MultiCursor Nat Op Answer where
  rel c position := c = ⟨bufs, position⟩ ∧ position ≤ i64Max
  allowed := Allowed bufs.flatten
  right := Right bufs.flatten
  next := advance

section Loops
variable {bufs : List (List UInt8)} {pos len : Nat}

theorem readFrom_eq (len : Nat) (bufs : List (List UInt8)) (pos : Nat) :
    readFrom len bufs pos =
      if fillFrom bufs pos = [] then none else some ((fillFrom bufs pos).take len) := by
  induction bufs generalizing pos with
  | nil => rfl
  | cons b bufs ih =>
    rw [readFrom, fillFrom]
    split
    · rename_i inside
      have rest : b.drop pos ≠ [] := by simpa using inside
      rw [if_neg rest, ← List.length_drop, ← List.take_eq_take_min]
    · exact ih (pos - b.length)

theorem fillFrom_start (bufs : List (List UInt8)) (pos : Nat) :
    fillFrom bufs pos <+: bufs.flatten.drop pos := by
  induction bufs generalizing pos with
  | nil => simp [fillFrom]
  | cons b bufs ih =>
    rw [fillFrom, List.flatten_cons, List.drop_append]
    split
    · exact List.prefix_append _ _
    · rename_i beyond
      rw [List.drop_eq_nil_of_le (by omega), List.nil_append]
      exact ih (pos - b.length)

theorem fillFrom_eq_nil_iff : fillFrom bufs pos = [] ↔ bufs.flatten.length ≤ pos := by
  induction bufs generalizing pos with
  | nil => simp [fillFrom]
  | cons b bufs ih =>
    rw [fillFrom, List.flatten_cons, List.length_append]
    split
    · rw [List.drop_eq_nil_iff]
      omega
    · rw [ih]
      omega

theorem length_fillFrom (bufs : List (List UInt8)) (pos : Nat) :
    (fillFrom bufs pos).length ≤ bufs.flatten.length - pos := by
  have bound := (fillFrom_start bufs pos).length_le
  rwa [List.length_drop] at bound

theorem totalLen_eq (c : MultiCursor) : c.totalLen = c.bufs.flatten.length := by
  rw [MultiCursor.totalLen, List.length_flatten, List.sum_eq_foldl, List.foldl_map]

end Loops

section Steps
variable {bufs : List (List UInt8)} {position : Nat}

/-- At or behind the end a read is empty, before it the read shows what `fill_buf` would, as far
    as the destination reaches, and moves behind it. -/
theorem read_eq (fits : bufs.flatten.length ≤ i64Max) (len : Nat) :
    MultiCursor.read len ⟨bufs, position⟩ =
      some (⟨bufs, position + ((fillFrom bufs position).take len).length⟩,
        (fillFrom bufs position).take len) := by
  rw [MultiCursor.read, readFrom_eq]
  by_cases nothing : fillFrom bufs position = []
  · simp [nothing]
  · have inside : position < bufs.flatten.length := by
      rw [fillFrom_eq_nil_iff] at nothing
      omega
    have short : ((fillFrom bufs position).take len).length ≤ bufs.flatten.length - position :=
      (List.length_take_le' len _).trans (length_fillFrom bufs position)
    have room : position + ((fillFrom bufs position).take len).length ≤ u64Max := by
      simp only [u64Max, i64Max] at *
      omega
    rw [if_neg nothing]
    simp only [MultiCursor.consume, if_pos room, Option.map_some]

theorem right_read (len : Nat) :
    Right bufs.flatten position (.read len) (.read ((fillFrom bufs position).take len)) := by
  refine ⟨(List.take_prefix _ _).trans (fillFrom_start bufs position), List.length_take_le _ _, ?_⟩
  intro empty
  rcases List.take_eq_nil_iff.mp empty with none_wanted | none_left
  · exact Or.inl none_wanted
  · exact Or.inr (fillFrom_eq_nil_iff.mp none_left)

theorem advance_le (fits : bufs.flatten.length ≤ i64Max) (low : position ≤ i64Max) {amt : Nat}
    (offered : amt ≤ (fillFrom bufs position).length) : position + amt ≤ i64Max := by
  have left := length_fillFrom bufs position
  omega

theorem asU64_of_target {i : Int} (low : 0 ≤ i) (high : i ≤ i64Max) : (asU64 i : Int) = i := by
  simp only [asU64, i64Max] at *
  omega

theorem addI64_of_target {a b : Int} (low : 0 ≤ a + b) (high : a + b ≤ i64Max) :
    addI64 a b = some (a + b) := by
  rw [addI64, if_pos ⟨by omega, high⟩]

theorem seek_eq (fits : bufs.flatten.length ≤ i64Max) (inside : position ≤ i64Max) (pos : SeekFrom)
    (low : 0 ≤ target bufs.flatten.length position pos)
    (high : target bufs.flatten.length position pos ≤ i64Max) :
    ∃ new : Nat, MultiCursor.seek pos ⟨bufs, position⟩ = some (⟨bufs, new⟩, new) ∧
      (new : Int) = target bufs.flatten.length position pos := by
  cases pos with
  | start i => exact ⟨i, rfl, rfl⟩
  | current i =>
    have own : asI64 position = position := if_pos inside
    refine ⟨asU64 (position + i), ?_, asU64_of_target low high⟩
    simp only [MultiCursor.seek, own]
    rw [addI64_of_target low high]
    rfl
  | fromEnd i =>
    have total : MultiCursor.totalLen ⟨bufs, position⟩ = bufs.flatten.length := totalLen_eq _
    refine ⟨asU64 (bufs.flatten.length + i), ?_, asU64_of_target low high⟩
    simp only [MultiCursor.seek, total, if_pos fits]
    rw [addI64_of_target low high]
    rfl

theorem simulates_flat (fits : bufs.flatten.length ≤ i64Max) :
    Simulates (flatCursor bufs) cursorStep := by
  rintro c position op ⟨rfl, inside⟩ may
  cases op with
  | read len =>
    refine ⟨_, .read ((fillFrom bufs position).take len), ?_, right_read len, rfl, ?_⟩
    · simp only [cursorStep, read_eq fits, Option.map_some]
      rfl
    · exact advance_le fits inside (List.length_take_le' len _)
  | fillBuf =>
    exact ⟨_, _, rfl, ⟨fillFrom_start bufs position, fillFrom_eq_nil_iff.mp⟩, rfl, inside⟩
  | consume amt =>
    have bound : position + amt ≤ i64Max := advance_le fits inside may
    have room : position + amt ≤ u64Max := bound.trans (by decide)
    refine ⟨⟨bufs, position + amt⟩, .consumed, ?_, trivial, rfl, bound⟩
    simp only [cursorStep, MultiCursor.consume, if_pos room, Option.map_some]
  | seek pos =>
    obtain ⟨low, high⟩ := may
    obtain ⟨new, sought, meant⟩ := seek_eq fits inside pos low high
    refine ⟨⟨bufs, new⟩, .position new, ?_, meant, rfl, ?_⟩
    · simp only [cursorStep, sought, Option.map_some]
    · have bound : (new : Int) ≤ i64Max := meant.trans_le high
      exact Int.ofNat_le.mp bound

theorem readToEnd_eq (fits : bufs.flatten.length ≤ i64Max) (lens : List Nat)
    (wanted : ∀ len ∈ lens, 0 < len) (enough : bufs.flatten.length - position < lens.length) :
    MultiCursor.readToEnd lens ⟨bufs, position⟩ = some (bufs.flatten.drop position) := by
  induction lens generalizing position with
  | nil => simp at enough
  | cons len lens ih =>
    rw [MultiCursor.readToEnd, read_eq fits, Option.bind_some]
    obtain ⟨start, _, last⟩ := @right_read bufs position len
    simp only
    split
    · rename_i empty
      have positive := wanted len List.mem_cons_self
      have behind : bufs.flatten.length ≤ position := (last empty).resolve_left (by omega)
      rw [List.drop_eq_nil_of_le behind]
    · rename_i some_left
      have progress := List.length_pos_iff.mpr some_left
      have short := start.length_le
      rw [List.length_drop] at short
      rw [List.length_cons] at enough
      rw [ih (fun n member => wanted n (List.mem_cons_of_mem len member)) (by omega), Option.map_some]
      obtain ⟨rest, whole⟩ := start
      rw [← List.drop_drop, ← whole, List.drop_left]

end Steps

/-- From the start, all allowed operations answer as a cursor over the concatenation does, and
    from any position enough reads bring exactly the rest. A slice, which the concatenation is
    to be, has at most `isize::MAX` bytes. -/
theorem cursor_over_concatenation (bufs : List (List UInt8)) (fits : bufs.flatten.length ≤ i64Max) :
    (∀ ops, Conforms (flatCursor bufs) cursorStep ⟨bufs, 0⟩ 0 ops) ∧
    ∀ (position : Nat) (lens : List Nat), (∀ len ∈ lens, 0 < len) →
      bufs.flatten.length - position < lens.length →
      MultiCursor.readToEnd lens ⟨bufs, position⟩ = some (bufs.flatten.drop position) :=
  ⟨conforms_of_simulates (simulates_flat fits) ⟨rfl, Nat.zero_le _⟩,
    fun _ => readToEnd_eq fits⟩

/-- Across an empty buffer, from the second byte on. -/
theorem cursor_over_three :
    (∀ ops, Conforms (flatCursor [[1, 2], [], [3]]) cursorStep ⟨[[1, 2], [], [3]], 0⟩ 0 ops) ∧
    MultiCursor.readToEnd [5, 1, 1] ⟨[[1, 2], [], [3]], 1⟩ = some [2, 3] :=
  ⟨(cursor_over_concatenation [[1, 2], [], [3]] (by decide)).1,
    (cursor_over_concatenation [[1, 2], [], [3]] (by decide)).2 1 [5, 1, 1] (by decide) (by decide)⟩

end ImageCursor
