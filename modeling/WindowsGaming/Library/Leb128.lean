import Mathlib.Algebra.Order.Ring.Nat

/- Numbers as bytes of seven bits, lowest first, all but the last with the high bit set. A
   number of at most `k + 1` bytes is read and written, and the last of `k + 1` is 0 or 1:
   with `k = 9` these are the 64-bit numbers. -/
namespace Leb128

def encode : Nat → Nat → List UInt8
  | 0, n => [UInt8.ofNat n]
  | k + 1, n =>
    if n < 128 then [UInt8.ofNat n] else UInt8.ofNat (n % 128 + 128) :: encode k (n / 128)

def decode : Nat → List UInt8 → Option (Nat × List UInt8)
  | _, [] => none
  | 0, b :: rest => if b.toNat < 2 then some (b.toNat, rest) else none
  | k + 1, b :: rest =>
    if b.toNat < 128 then some (b.toNat, rest)
    else (decode k rest).map fun (n, left) => (b.toNat - 128 + 128 * n, left)

theorem toNat_ofNat {n : Nat} (small : n < 256) : (UInt8.ofNat n).toNat = n := by
  simp [Nat.mod_eq_of_lt small]

def value : List UInt8 → Nat
  | [] => 0
  | b :: rest => b.toNat % 128 + 128 * value rest

/-- The bytes spell the number, not necessarily with as few bytes as possible. -/
structure Spells (k : Nat) (p : List UInt8) (n : Nat) : Prop where
  short : p.length ≤ k + 1
  continued : ∀ b ∈ p.dropLast, 128 ≤ b.toNat
  ended : ∃ b ∈ p.getLast?, b.toNat < 128
  value : value p = n
  fits : n < 2 * 128 ^ k

def Incomplete : Nat → List UInt8 → Prop
  | _, [] => True
  | 0, _ :: _ => False
  | k + 1, b :: rest => 128 ≤ b.toNat ∧ Incomplete k rest

def Invalid : Nat → List UInt8 → Prop
  | _, [] => False
  | 0, b :: _ => 2 ≤ b.toNat
  | k + 1, b :: rest => 128 ≤ b.toNat ∧ Invalid k rest

section Spelling
variable {k n : Nat} {b : UInt8} {p q rest : List UInt8}

theorem ne_nil_of_spells (spells : Spells k p n) : p ≠ [] := by
  rintro rfl
  obtain ⟨_, none, _⟩ := spells.ended
  cases none

theorem spells_single : Spells k [b] n ↔ b.toNat < 128 ∧ n = b.toNat ∧ n < 2 * 128 ^ k := by
  constructor
  · rintro ⟨_, _, ⟨last, only, small⟩, same, fits⟩
    rw [List.getLast?_singleton, Option.mem_some_iff] at only
    subst only
    rw [value, value, Nat.mod_eq_of_lt small] at same
    exact ⟨small, by omega, fits⟩
  · rintro ⟨small, rfl, fits⟩
    refine ⟨by simp, by simp, ⟨b, rfl, small⟩, ?_, fits⟩
    simp [value, Nat.mod_eq_of_lt small]

theorem spells_cons (more : p ≠ []) : Spells (k + 1) (b :: p) n ↔
    128 ≤ b.toNat ∧ ∃ m, Spells k p m ∧ n = b.toNat - 128 + 128 * m := by
  have byte := b.toNat_lt
  obtain ⟨c, cs, rfl⟩ := List.exists_cons_of_ne_nil more
  constructor
  · rintro ⟨short, continued, ended, same, fits⟩
    have large : 128 ≤ b.toNat := continued b List.mem_cons_self
    rw [value] at same
    rw [Nat.pow_succ] at fits
    refine ⟨large, value (c :: cs), ?_, by omega⟩
    refine ⟨Nat.le_of_succ_le_succ short, ?_, by simpa using ended, rfl, by omega⟩
    exact fun d member => continued d (List.mem_cons_of_mem b member)
  · rintro ⟨large, m, ⟨short, continued, ended, same, fits⟩, rfl⟩
    refine ⟨Nat.succ_le_succ short, ?_, by simpa using ended, ?_, ?_⟩
    · intro d member
      rcases List.mem_cons.mp member with rfl | later
      · exact large
      · exact continued d later
    · rw [value, same]
      omega
    · rw [Nat.pow_succ]
      omega

theorem spells_encode (fits : n < 2 * 128 ^ k) : Spells k (encode k n) n := by
  induction k generalizing n with
  | zero =>
    have byte : (UInt8.ofNat n).toNat = n := toNat_ofNat (by omega)
    rw [encode, spells_single, byte]
    exact ⟨by omega, rfl, fits⟩
  | succ k ih =>
    by_cases small : n < 128
    · have byte : (UInt8.ofNat n).toNat = n := toNat_ofNat (by omega)
      rw [encode, if_pos small, spells_single, byte]
      exact ⟨small, rfl, fits⟩
    · have byte : (UInt8.ofNat (n % 128 + 128)).toNat = n % 128 + 128 := toNat_ofNat (by omega)
      rw [Nat.pow_succ] at fits
      have later : Spells k (encode k (n / 128)) (n / 128) := ih (by omega)
      rw [encode, if_neg small, spells_cons (ne_nil_of_spells later), byte]
      exact ⟨by omega, n / 128, later, by omega⟩

theorem decode_spells (spells : Spells k p n) (rest : List UInt8) :
    decode k (p ++ rest) = some (n, rest) := by
  induction k generalizing p n with
  | zero =>
    cases p with
    | nil => exact absurd rfl (ne_nil_of_spells spells)
    | cons b bs =>
      cases List.length_eq_zero_iff.mp (Nat.le_zero.mp (Nat.le_of_succ_le_succ spells.short))
      obtain ⟨_, rfl, fits⟩ := spells_single.mp spells
      simp only [List.cons_append, List.nil_append, decode]
      rw [if_pos (by simpa using fits)]
  | succ k ih =>
    cases p with
    | nil => exact absurd rfl (ne_nil_of_spells spells)
    | cons b bs =>
      by_cases single : bs = []
      · subst single
        obtain ⟨small, rfl, _⟩ := spells_single.mp spells
        simp [decode, small]
      · obtain ⟨large, m, later, rfl⟩ := (spells_cons single).mp spells
        simp [decode, Nat.not_lt_of_le large, ih later]

theorem decode_encode (fits : n < 2 * 128 ^ k) (rest : List UInt8) :
    decode k (encode k n ++ rest) = some (n, rest) :=
  decode_spells (spells_encode fits) rest

theorem spells_of_decode {buf : List UInt8} (read : decode k buf = some (n, rest)) :
    ∃ p, buf = p ++ rest ∧ Spells k p n := by
  induction k generalizing buf n with
  | zero =>
    cases buf with
    | nil => cases read
    | cons b bs =>
      simp only [decode] at read
      split at read
      · cases read
        refine ⟨[b], rfl, spells_single.mpr ⟨by omega, rfl, by omega⟩⟩
      · cases read
  | succ k ih =>
    cases buf with
    | nil => cases read
    | cons b bs =>
      simp only [decode] at read
      split at read
      · rename_i small
        cases read
        have room : 0 < 128 ^ k := Nat.pow_pos (by decide)
        refine ⟨[b], rfl, spells_single.mpr ⟨small, rfl, ?_⟩⟩
        rw [Nat.pow_succ]
        omega
      · rename_i large
        obtain ⟨⟨m, left⟩, later, same⟩ := Option.map_eq_some_iff.mp read
        cases same
        obtain ⟨p, rfl, spells⟩ := ih later
        have more : p ≠ [] := ne_nil_of_spells spells
        exact ⟨b :: p, rfl, (spells_cons more).mpr ⟨Nat.le_of_not_lt large, m, spells, rfl⟩⟩

/-- A number's spelling ends before no other spelling does. -/
theorem decode_proper (spells : Spells k p n) (part : q <+: p) (proper : q ≠ p) :
    decode k q = none := by
  cases read : decode k q with
  | none => rfl
  | some pair =>
    obtain ⟨m, rest⟩ := pair
    obtain ⟨front, rfl, early⟩ := spells_of_decode read
    obtain ⟨tail, rfl⟩ := part
    have whole := decode_spells spells []
    rw [List.append_nil, List.append_assoc, decode_spells early] at whole
    have nothing : rest ++ tail = [] := by
      rw [Option.some.injEq, Prod.mk.injEq] at whole
      exact whole.2
    rw [(List.append_eq_nil_iff.mp nothing).2, List.append_nil] at proper
    exact absurd rfl proper

theorem decode_incomplete (fits : n < 2 * 128 ^ k) (part : q <+: encode k n)
    (proper : q ≠ encode k n) : decode k q = none :=
  decode_proper (spells_encode fits) part proper

theorem decode_none {buf : List UInt8} (nothing : decode k buf = none) :
    Incomplete k buf ∨ Invalid k buf := by
  induction k generalizing buf with
  | zero =>
    cases buf with
    | nil => exact Or.inl trivial
    | cons b bs =>
      simp only [decode] at nothing
      split at nothing
      · cases nothing
      · exact Or.inr (Nat.le_of_not_lt ‹_›)
  | succ k ih =>
    cases buf with
    | nil => exact Or.inl trivial
    | cons b bs =>
      simp only [decode] at nothing
      split at nothing
      · cases nothing
      · rename_i large
        rcases ih (Option.map_eq_none_iff.mp nothing) with incomplete | invalid
        · exact Or.inl ⟨Nat.le_of_not_lt large, incomplete⟩
        · exact Or.inr ⟨Nat.le_of_not_lt large, invalid⟩

theorem decode_invalid {buf : List UInt8} (invalid : Invalid k buf) (more : List UInt8) :
    decode k (buf ++ more) = none := by
  induction k generalizing buf with
  | zero =>
    cases buf with
    | nil => cases invalid
    | cons b bs => simp [decode, Nat.not_lt_of_le invalid]
  | succ k ih =>
    cases buf with
    | nil => cases invalid
    | cons b bs => simp [decode, Nat.not_lt_of_le invalid.1, ih invalid.2]

theorem spells_incomplete {buf : List UInt8} (incomplete : Incomplete k buf) :
    ∃ n, Spells k (buf ++ [0]) n := by
  induction k generalizing buf with
  | zero =>
    cases buf with
    | nil => exact ⟨0, spells_single.mpr (by decide)⟩
    | cons b bs => cases incomplete
  | succ k ih =>
    cases buf with
    | nil => exact ⟨0, spells_single.mpr ⟨by decide, rfl, by simp⟩⟩
    | cons b bs =>
      obtain ⟨m, spells⟩ := ih incomplete.2
      exact ⟨_, (spells_cons (by simp)).mpr ⟨incomplete.1, m, spells, rfl⟩⟩

/-- No spelling is shorter than the one that is written. -/
theorem encode_shortest (spells : Spells k p n) : (encode k n).length ≤ p.length := by
  have some_byte : 0 < p.length := List.length_pos_iff.mpr (ne_nil_of_spells spells)
  induction k generalizing p n with
  | zero => exact some_byte
  | succ k ih =>
    by_cases small : n < 128
    · simp only [encode, small, if_true, List.length_singleton]
      exact some_byte
    · cases p with
      | nil => cases some_byte
      | cons b bs =>
        by_cases single : bs = []
        · subst single
          obtain ⟨less, rfl, _⟩ := spells_single.mp spells
          exact absurd less small
        · obtain ⟨large, m, later, rfl⟩ := (spells_cons single).mp spells
          have byte := b.toNat_lt
          have digits : (b.toNat - 128 + 128 * m) / 128 = m := by omega
          simp only [encode, small, if_false, digits, List.length_cons]
          exact Nat.succ_le_succ (ih later (List.length_pos_iff.mpr single))

end Spelling
end Leb128
