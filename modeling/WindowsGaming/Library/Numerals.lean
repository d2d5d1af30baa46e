import WindowsGaming.Library.ByteStrings

/- Unsigned numbers as text in a base up to sixteen: how they are shown, with or without a least
   width, and how they are read back below a bound. -/
namespace Numerals
open ByteStrings

def digitValue (base : Nat) (c : Char) : Option Nat := (hexValue c).filter fun d => d < base

def pushDigit (base bound n : Nat) (c : Char) : Option Nat :=
  (digitValue base c).bind fun d => if base * n + d < bound then some (base * n + d) else none

/-- A plus sign may come first; no digits at all and overflow are errors. -/
def fromStrRadix (base bound : Nat) (src : List Char) : Option Nat :=
  let digits := match src with
    | '+' :: rest => rest
    | _ => src
  if digits = [] then none else digits.foldlM (pushDigit base bound) 0

def padded (width base n : Nat) : List Char :=
  List.replicate (width - (Nat.toDigits base n).length) '0' ++ Nat.toDigits base n

section Digits
variable {base bound n : Nat}

theorem digitValue_digitChar {d : Nat} (small : base ≤ 16) (digit : d < base) :
    digitValue base d.digitChar = some d := by
  have read : ∀ d < 16, hexValue d.digitChar = some d := by decide
  rw [digitValue, read d (Nat.lt_of_lt_of_le digit small), Option.filter_some]
  simp [digit]

theorem pushDigit_digitChar {d : Nat} (small : base ≤ 16) (digit : d < base)
    (fits : base * n + d < bound) : pushDigit base bound n d.digitChar = some (base * n + d) := by
  rw [pushDigit, digitValue_digitChar small digit, Option.bind_some, if_pos fits]

theorem digit_of_mem {c : Char} (large : 1 < base) (member : c ∈ Nat.toDigits base n) :
    ∃ d < base, c = d.digitChar := by
  induction n using Nat.strongRecOn with
  | ind n ih =>
    by_cases one : n < base
    · rw [Nat.toDigits_of_lt_base one, List.mem_singleton] at member
      exact ⟨n, one, member⟩
    · have less : n / base < n := Nat.div_lt_self (by omega) large
      rw [Nat.toDigits_of_base_le large (by omega), List.mem_append, List.mem_singleton] at member
      rcases member with front | last
      · exact ih (n / base) less front
      · exact ⟨n % base, Nat.mod_lt n (by omega), last⟩

theorem digit_of_mem_padded {width : Nat} {c : Char} (large : 1 < base)
    (member : c ∈ padded width base n) : ∃ d < base, c = d.digitChar := by
  rcases List.mem_append.mp member with zero | shown
  · exact ⟨0, by omega, List.eq_of_mem_replicate zero⟩
  · exact digit_of_mem large shown

theorem foldlM_toDigits (large : 1 < base) (small : base ≤ 16) (fits : n < bound) :
    (Nat.toDigits base n).foldlM (pushDigit base bound) 0 = some n := by
  induction n using Nat.strongRecOn with
  | ind n ih =>
    by_cases one : n < base
    · rw [Nat.toDigits_of_lt_base one, List.foldlM_cons,
        pushDigit_digitChar small one (by omega)]
      simp
    · have less : n / base < n := Nat.div_lt_self (by omega) large
      have whole : base * (n / base) + n % base = n := Nat.div_add_mod n base
      rw [Nat.toDigits_of_base_le large (by omega), List.foldlM_append,
        ih (n / base) less (by omega), Option.bind_eq_bind, Option.bind_some, List.foldlM_cons,
        pushDigit_digitChar small (Nat.mod_lt n (by omega)) (by omega), whole]
      rfl

theorem foldlM_zeros (large : 1 < base) (small : base ≤ 16) (some_room : 0 < bound) (k : Nat)
    (digits : List Char) :
    (List.replicate k '0' ++ digits).foldlM (pushDigit base bound) 0 =
      digits.foldlM (pushDigit base bound) 0 := by
  induction k with
  | zero => rfl
  | succ k ih =>
    have zero : pushDigit base bound 0 '0' = some 0 :=
      pushDigit_digitChar small (show 0 < base by omega) (by omega)
    rw [List.replicate_succ, List.cons_append, List.foldlM_cons, zero]
    exact ih

theorem fromStrRadix_unsigned {digits : List Char} (some_digit : digits ≠ [])
    (unsigned : ∀ rest, digits ≠ '+' :: rest) :
    fromStrRadix base bound digits = digits.foldlM (pushDigit base bound) 0 := by
  unfold fromStrRadix
  split
  · exact absurd rfl (unsigned _)
  · simp only
    rw [if_neg some_digit]

theorem fromStrRadix_padded (width : Nat) (large : 1 < base) (small : base ≤ 16)
    (fits : n < bound) : fromStrRadix base bound (padded width base n) = some n := by
  have some_digit : padded width base n ≠ [] := by simp [padded]
  have unsigned : ∀ rest, padded width base n ≠ '+' :: rest := by
    intro rest shown
    have member : '+' ∈ padded width base n := shown ▸ List.mem_cons_self
    obtain ⟨d, -, plus⟩ := digit_of_mem_padded large member
    have no_digit : '+' ≠ d.digitChar := (Nat.digitChar_ne '+' (by decide)).symm
    exact no_digit plus
  rw [fromStrRadix_unsigned some_digit unsigned, padded, foldlM_zeros large small (by omega),
    foldlM_toDigits large small fits]

theorem padded_injective (width : Nat) (large : 1 < base) (small : base ≤ 16) :
    Function.Injective (padded width base) := by
  intro m n same
  have first := fromStrRadix_padded width large small (show m < m + n + 1 by omega)
  have second := fromStrRadix_padded width large small (show n < m + n + 1 by omega)
  rw [same] at first
  exact Option.some.inj (first.symm.trans second)

theorem fromStrRadix16_eq (src : List Char) :
    fromStrRadix16 src = (fromStrRadix 16 (2 ^ 16) src).map UInt16.ofNat := by
  have digit : digitValue 16 = hexValue := by
    funext c
    cases value : hexValue c with
    | none => simp [digitValue, value]
    | some d => simp [digitValue, value, Nat.lt_succ_of_le (hexValue_bounds value).1]
  have push : pushDigit 16 (2 ^ 16) = ByteStrings.pushDigit := by
    funext n c
    rw [pushDigit, digit, ByteStrings.pushDigit]
  have read : ∀ digits : List Char,
      (if digits = [] then none else (digits.foldlM ByteStrings.pushDigit 0).map UInt16.ofNat) =
        (if digits = [] then none else digits.foldlM (pushDigit 16 (2 ^ 16)) 0).map UInt16.ofNat := by
    intro digits
    rw [push, apply_ite (Option.map UInt16.ofNat), Option.map_none]
  exact read _

end Digits

end Numerals
