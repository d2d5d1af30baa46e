import Mathlib.Data.List.Basic

/- Text as UTF-8. A lossy decoder puts a replacement character where a strict one refuses, one for
   the longest run of bytes that could have begun a character. -/
namespace Utf8

def replacement : Char := '\uFFFD'

/-- What a first byte says: its bits, the number of bytes to follow, the range of the next one. -/
structure Lead where
  bits : Nat
  more : Nat
  low : Nat
  high : Nat

def lead (b : UInt8) : Option Lead :=
  let n := b.toNat
  if n < 0x80 then some ⟨n, 0, 0x80, 0xBF⟩
  else if n < 0xC2 then none
  else if n < 0xE0 then some ⟨n - 0xC0, 1, 0x80, 0xBF⟩
  else if n < 0xF0 then
    some ⟨n - 0xE0, 2, if n = 0xE0 then 0xA0 else 0x80, if n = 0xED then 0x9F else 0xBF⟩
  else if n < 0xF5 then
    some ⟨n - 0xF0, 3, if n = 0xF0 then 0x90 else 0x80, if n = 0xF4 then 0x8F else 0xBF⟩
  else none

def tails : Nat → Nat → Nat → Nat → List UInt8 → Option Nat × List UInt8
  | 0, _, _, value, rest => (some value, rest)
  | _ + 1, _, _, _, [] => (none, [])
  | more + 1, low, high, value, b :: rest =>
    if low ≤ b.toNat ∧ b.toNat ≤ high then
      tails more 0x80 0xBF (value * 0x40 + (b.toNat - 0x80)) rest
    else (none, b :: rest)

def next (b : UInt8) (rest : List UInt8) : Option Char × List UInt8 :=
  match lead b with
  | none => (none, rest)
  | some l => (tails l.more l.low l.high l.bits rest).map (fun value => value.map Char.ofNat) id

/-- The characters of some bytes, with `none` for each run that is not one. -/
def scanFrom : Nat → List UInt8 → List (Option Char)
  | _, [] => []
  | 0, _ :: _ => []
  | fuel + 1, b :: rest => (next b rest).1 :: scanFrom fuel (next b rest).2

def scan (bytes : List UInt8) : List (Option Char) := scanFrom bytes.length bytes

def fromUtf8 (bytes : List UInt8) : Option (List Char) := (scan bytes).mapM id

def fromUtf8Lossy (bytes : List UInt8) : List Char := (scan bytes).map fun c => c.getD replacement

def encodeChar (c : Char) : List UInt8 :=
  let n := c.toNat
  if n < 0x80 then [UInt8.ofNat n]
  else if n < 0x800 then [UInt8.ofNat (0xC0 + n / 0x40), UInt8.ofNat (0x80 + n % 0x40)]
  else if n < 0x10000 then
    [UInt8.ofNat (0xE0 + n / 0x1000), UInt8.ofNat (0x80 + n / 0x40 % 0x40),
      UInt8.ofNat (0x80 + n % 0x40)]
  else
    [UInt8.ofNat (0xF0 + n / 0x40000), UInt8.ofNat (0x80 + n / 0x1000 % 0x40),
      UInt8.ofNat (0x80 + n / 0x40 % 0x40), UInt8.ofNat (0x80 + n % 0x40)]

def encode (cs : List Char) : List UInt8 := cs.flatMap encodeChar

section Scanning
variable {b : UInt8} {rest : List UInt8}

theorem tails_length (more low high value : Nat) (rest : List UInt8) :
    (tails more low high value rest).2.length ≤ rest.length := by
  induction more generalizing low high value rest with
  | zero => exact Nat.le_refl _
  | succ more ih =>
    cases rest with
    | nil => exact Nat.le_refl _
    | cons b rest =>
      simp only [tails]
      split
      · exact Nat.le_succ_of_le (ih _ _ _ rest)
      · exact Nat.le_refl _

theorem next_length (b : UInt8) (rest : List UInt8) : (next b rest).2.length ≤ rest.length := by
  unfold next
  split
  · exact Nat.le_refl _
  · exact tails_length _ _ _ _ rest

theorem scanFrom_eq {fuel : Nat} {bytes : List UInt8} (enough : bytes.length ≤ fuel) :
    scanFrom fuel bytes = scan bytes := by
  induction fuel using Nat.strongRecOn generalizing bytes with
  | ind fuel ih =>
    cases bytes with
    | nil => cases fuel <;> rfl
    | cons b rest =>
      obtain ⟨fuel, rfl⟩ : ∃ f, fuel = f + 1 := ⟨fuel - 1, by simp at enough; omega⟩
      have shorter := next_length b rest
      have bound : rest.length ≤ fuel := Nat.le_of_succ_le_succ enough
      rw [scan, List.length_cons, scanFrom, scanFrom, ih fuel (Nat.lt_succ_self _) (by omega)]
      rcases Nat.lt_or_ge rest.length fuel with less | same
      · rw [ih rest.length (by omega) shorter]
      · rw [Nat.le_antisymm bound same, ih fuel (Nat.lt_succ_self _) (by omega)]

theorem scan_cons (b : UInt8) (rest : List UInt8) :
    scan (b :: rest) = (next b rest).1 :: scan (next b rest).2 := by
  rw [scan, List.length_cons, scanFrom, scanFrom_eq (next_length b rest)]

end Scanning

section Characters
variable {c : Char} {rest : List UInt8}

theorem toNat_ofNat_byte {n : Nat} (small : n < 0x100) : (UInt8.ofNat n).toNat = n :=
  UInt8.toNat_ofNat_of_lt' small

theorem tails_byte {more low high value n : Nat} (small : n < 0x40) (above : low ≤ 0x80 + n)
    (below : 0x80 + n ≤ high) : tails (more + 1) low high value (UInt8.ofNat (0x80 + n) :: rest) =
      tails more 0x80 0xBF (value * 0x40 + n) rest := by
  have byte : (UInt8.ofNat (0x80 + n)).toNat = 0x80 + n := toNat_ofNat_byte (by omega)
  rw [tails, byte, if_pos ⟨above, below⟩, Nat.add_sub_cancel_left]

theorem toNat_bounds (c : Char) : c.toNat < 0x110000 ∧ ¬ (0xD800 ≤ c.toNat ∧ c.toNat < 0xE000) := by
  have valid : c.toNat.isValidChar := c.valid
  unfold Nat.isValidChar at valid
  omega

theorem next_two (wide : 0x80 ≤ c.toNat) (two : c.toNat < 0x800) :
    next (UInt8.ofNat (0xC0 + c.toNat / 0x40)) (UInt8.ofNat (0x80 + c.toNat % 0x40) :: rest) =
      (some c, rest) := by
  have byte : (UInt8.ofNat (0xC0 + c.toNat / 0x40)).toNat = 0xC0 + c.toNat / 0x40 :=
    toNat_ofNat_byte (by omega)
  have first : lead (UInt8.ofNat (0xC0 + c.toNat / 0x40)) =
      some ⟨c.toNat / 0x40, 1, 0x80, 0xBF⟩ := by
    simp only [lead, byte]
    rw [if_neg (by omega), if_neg (by omega), if_pos (by omega), Nat.add_sub_cancel_left]
  simp only [next, first]
  rw [tails_byte (by omega) (by omega) (by omega), tails]
  have whole : c.toNat / 0x40 * 0x40 + c.toNat % 0x40 = c.toNat := by omega
  simp [whole]

theorem next_three (wide : 0x800 ≤ c.toNat) (three : c.toNat < 0x10000) :
    next (UInt8.ofNat (0xE0 + c.toNat / 0x1000)) (UInt8.ofNat (0x80 + c.toNat / 0x40 % 0x40) ::
      UInt8.ofNat (0x80 + c.toNat % 0x40) :: rest) = (some c, rest) := by
  have plain := toNat_bounds c
  have byte : (UInt8.ofNat (0xE0 + c.toNat / 0x1000)).toNat = 0xE0 + c.toNat / 0x1000 :=
    toNat_ofNat_byte (by omega)
  have first : lead (UInt8.ofNat (0xE0 + c.toNat / 0x1000)) = some ⟨c.toNat / 0x1000, 2,
      if 0xE0 + c.toNat / 0x1000 = 0xE0 then 0xA0 else 0x80,
      if 0xE0 + c.toNat / 0x1000 = 0xED then 0x9F else 0xBF⟩ := by
    simp only [lead, byte]
    rw [if_neg (by omega), if_neg (by omega), if_neg (by omega), if_pos (by omega),
      Nat.add_sub_cancel_left]
  simp only [next, first]
  rw [tails_byte (by omega) (by split <;> omega) (by split <;> omega),
    tails_byte (by omega) (by omega) (by omega), tails]
  have whole : (c.toNat / 0x1000 * 0x40 + c.toNat / 0x40 % 0x40) * 0x40 + c.toNat % 0x40 =
      c.toNat := by omega
  simp [whole]

theorem next_four (wide : 0x10000 ≤ c.toNat) :
    next (UInt8.ofNat (0xF0 + c.toNat / 0x40000)) (UInt8.ofNat (0x80 + c.toNat / 0x1000 % 0x40) ::
      UInt8.ofNat (0x80 + c.toNat / 0x40 % 0x40) :: UInt8.ofNat (0x80 + c.toNat % 0x40) :: rest) =
      (some c, rest) := by
  have plain := toNat_bounds c
  have byte : (UInt8.ofNat (0xF0 + c.toNat / 0x40000)).toNat = 0xF0 + c.toNat / 0x40000 :=
    toNat_ofNat_byte (by omega)
  have first : lead (UInt8.ofNat (0xF0 + c.toNat / 0x40000)) = some ⟨c.toNat / 0x40000, 3,
      if 0xF0 + c.toNat / 0x40000 = 0xF0 then 0x90 else 0x80,
      if 0xF0 + c.toNat / 0x40000 = 0xF4 then 0x8F else 0xBF⟩ := by
    simp only [lead, byte]
    rw [if_neg (by omega), if_neg (by omega), if_neg (by omega), if_neg (by omega),
      if_pos (by omega), Nat.add_sub_cancel_left]
  simp only [next, first]
  rw [tails_byte (by omega) (by split <;> omega) (by split <;> omega),
    tails_byte (by omega) (by omega) (by omega), tails_byte (by omega) (by omega) (by omega), tails]
  have whole : ((c.toNat / 0x40000 * 0x40 + c.toNat / 0x1000 % 0x40) * 0x40 +
      c.toNat / 0x40 % 0x40) * 0x40 + c.toNat % 0x40 = c.toNat := by omega
  simp [whole]

theorem scan_encodeChar (c : Char) (rest : List UInt8) :
    scan (encodeChar c ++ rest) = some c :: scan rest := by
  unfold encodeChar
  dsimp only
  split
  · rename_i one
    have byte : (UInt8.ofNat c.toNat).toNat = c.toNat := toNat_ofNat_byte (by omega)
    have first : next (UInt8.ofNat c.toNat) rest = (some c, rest) := by
      simp [next, lead, byte, one, tails]
    rw [List.singleton_append, scan_cons, first]
  · rename_i wide
    split
    · rename_i two
      rw [List.cons_append, List.singleton_append, scan_cons, next_two (by omega) two]
    · rename_i wider
      split
      · rename_i three
        rw [List.cons_append, List.cons_append, List.singleton_append, scan_cons,
          next_three (by omega) three]
      · rename_i widest
        rw [List.cons_append, List.cons_append, List.cons_append, List.singleton_append, scan_cons,
          next_four (by omega)]

theorem tails_eq_some {more low high value v : Nat} {bytes : List UInt8} (least : 0x80 ≤ low)
    (most : high ≤ 0xBF) (taken : tails (more + 1) low high value bytes = (some v, rest)) :
    ∃ n tail, bytes = UInt8.ofNat (0x80 + n) :: tail ∧ n < 0x40 ∧ low ≤ 0x80 + n ∧
      0x80 + n ≤ high ∧ tails more 0x80 0xBF (value * 0x40 + n) tail = (some v, rest) := by
  cases bytes with
  | nil => simp [tails] at taken
  | cons b tail =>
    simp only [tails] at taken
    split at taken
    · rename_i within
      have same : UInt8.ofNat (0x80 + (b.toNat - 0x80)) = b := by
        rw [Nat.add_sub_cancel' (by omega), UInt8.ofNat_toNat]
      exact ⟨b.toNat - 0x80, tail, by rw [same], by omega, by omega, by omega, taken⟩
    · cases taken

theorem lead_cases {b : UInt8} {l : Lead} (known : lead b = some l) :
    (b.toNat < 0x80 ∧ l = ⟨b.toNat, 0, 0x80, 0xBF⟩) ∨
    (∃ q, 2 ≤ q ∧ q < 0x20 ∧ b = UInt8.ofNat (0xC0 + q) ∧ l = ⟨q, 1, 0x80, 0xBF⟩) ∨
    (∃ q, q < 0x10 ∧ b = UInt8.ofNat (0xE0 + q) ∧
      l = ⟨q, 2, if q = 0 then 0xA0 else 0x80, if q = 0xD then 0x9F else 0xBF⟩) ∨
    ∃ q, q < 5 ∧ b = UInt8.ofNat (0xF0 + q) ∧
      l = ⟨q, 3, if q = 0 then 0x90 else 0x80, if q = 4 then 0x8F else 0xBF⟩ := by
  have split : ∀ base, base ≤ b.toNat → b = UInt8.ofNat (base + (b.toNat - base)) := by
    intro base above
    rw [Nat.add_sub_cancel' above, UInt8.ofNat_toNat]
  simp only [lead] at known
  split at known
  · rename_i one
    exact Or.inl ⟨one, (Option.some.inj known).symm⟩
  · split at known
    · cases known
    · split at known
      · exact Or.inr (Or.inl ⟨b.toNat - 0xC0, by omega, by omega, split _ (by omega),
          (Option.some.inj known).symm⟩)
      · split at known
        · refine Or.inr (Or.inr (Or.inl ⟨b.toNat - 0xE0, by omega, split _ (by omega), ?_⟩))
          have least : (b.toNat - 0xE0 = 0) = (b.toNat = 0xE0) := propext (by omega)
          have surrogates : (b.toNat - 0xE0 = 0xD) = (b.toNat = 0xED) := propext (by omega)
          simp only [least, surrogates]
          exact (Option.some.inj known).symm
        · split at known
          · refine Or.inr (Or.inr (Or.inr ⟨b.toNat - 0xF0, by omega, split _ (by omega), ?_⟩))
            have least : (b.toNat - 0xF0 = 0) = (b.toNat = 0xF0) := propext (by omega)
            have greatest : (b.toNat - 0xF0 = 4) = (b.toNat = 0xF4) := propext (by omega)
            simp only [least, greatest]
            exact (Option.some.inj known).symm
          · cases known

theorem toNat_ofNat_char {n : Nat} (small : n < 0x110000) (plain : ¬ (0xD800 ≤ n ∧ n < 0xE000)) :
    (Char.ofNat n).toNat = n := by
  have valid : n.isValidChar := by
    unfold Nat.isValidChar
    omega
  rw [Char.ofNat, dif_pos valid]
  rfl

theorem eq_encodeChar {b : UInt8} {bytes : List UInt8} (taken : next b bytes = (some c, rest)) :
    b :: bytes = encodeChar c ++ rest := by
  unfold next at taken
  split at taken
  · cases taken
  · rename_i l known
    obtain ⟨value, left⟩ := Prod.mk.inj taken
    obtain ⟨v, counted, rfl⟩ := Option.map_eq_some_iff.mp value
    have tailed : tails l.more l.low l.high l.bits bytes = (some v, rest) := Prod.ext counted left
    clear taken value counted left
    rcases lead_cases known with ⟨one, rfl⟩ | ⟨q, two, most, rfl, rfl⟩ | ⟨q, most, rfl, rfl⟩ |
      ⟨q, most, rfl, rfl⟩ <;> dsimp only at tailed
    · simp only [tails, Prod.mk.injEq, Option.some.injEq] at tailed
      obtain ⟨rfl, rfl⟩ := tailed
      have same := toNat_ofNat_char (n := b.toNat) (by omega) (by omega)
      simp [encodeChar, same, one]
    · obtain ⟨n, tail, rfl, small, -, -, done⟩ := tails_eq_some (by omega) (by omega) tailed
      simp only [tails, Prod.mk.injEq, Option.some.injEq] at done
      obtain ⟨rfl, rfl⟩ := done
      have same := toNat_ofNat_char (n := q * 0x40 + n) (by omega) (by omega)
      have high : (q * 0x40 + n) / 0x40 = q := by omega
      have low : (q * 0x40 + n) % 0x40 = n := by omega
      rw [encodeChar]
      simp only [same]
      rw [if_neg (by omega), if_pos (by omega), high, low]
      rfl
    · obtain ⟨m, tail, rfl, smaller, least, greatest, more⟩ :=
        tails_eq_some (by split <;> omega) (by split <;> omega) tailed
      obtain ⟨n, tail, rfl, small, -, -, done⟩ := tails_eq_some (by omega) (by omega) more
      simp only [tails, Prod.mk.injEq, Option.some.injEq] at done
      obtain ⟨rfl, rfl⟩ := done
      have bounds : 0x800 ≤ (q * 0x40 + m) * 0x40 + n ∧
          ¬ (0xD800 ≤ (q * 0x40 + m) * 0x40 + n ∧ (q * 0x40 + m) * 0x40 + n < 0xE000) := by
        split at least <;> split at greatest <;> omega
      have same := toNat_ofNat_char (n := (q * 0x40 + m) * 0x40 + n) (by omega) bounds.2
      have high : ((q * 0x40 + m) * 0x40 + n) / 0x1000 = q := by omega
      have middle : ((q * 0x40 + m) * 0x40 + n) / 0x40 % 0x40 = m := by omega
      have low : ((q * 0x40 + m) * 0x40 + n) % 0x40 = n := by omega
      rw [encodeChar]
      simp only [same]
      rw [if_neg (by omega), if_neg (by omega), if_pos (by omega), high, middle, low]
      rfl
    · obtain ⟨p, tail, rfl, smallest, least, greatest, more⟩ :=
        tails_eq_some (by split <;> omega) (by split <;> omega) tailed
      obtain ⟨m, tail, rfl, smaller, -, -, most⟩ := tails_eq_some (by omega) (by omega) more
      obtain ⟨n, tail, rfl, small, -, -, done⟩ := tails_eq_some (by omega) (by omega) most
      simp only [tails, Prod.mk.injEq, Option.some.injEq] at done
      obtain ⟨rfl, rfl⟩ := done
      have bounds : 0x10000 ≤ ((q * 0x40 + p) * 0x40 + m) * 0x40 + n ∧
          ((q * 0x40 + p) * 0x40 + m) * 0x40 + n < 0x110000 := by
        split at least <;> split at greatest <;> omega
      have same := toNat_ofNat_char (n := ((q * 0x40 + p) * 0x40 + m) * 0x40 + n) bounds.2 (by omega)
      have high : (((q * 0x40 + p) * 0x40 + m) * 0x40 + n) / 0x40000 = q := by omega
      have second : (((q * 0x40 + p) * 0x40 + m) * 0x40 + n) / 0x1000 % 0x40 = p := by omega
      have middle : (((q * 0x40 + p) * 0x40 + m) * 0x40 + n) / 0x40 % 0x40 = m := by omega
      have low : (((q * 0x40 + p) * 0x40 + m) * 0x40 + n) % 0x40 = n := by omega
      rw [encodeChar]
      simp only [same]
      rw [if_neg (by omega), if_neg (by omega), if_neg (by omega), high, second, middle, low]
      rfl

end Characters

theorem scan_encode (cs : List Char) (rest : List UInt8) :
    scan (encode cs ++ rest) = cs.map some ++ scan rest := by
  induction cs with
  | nil => rfl
  | cons c cs ih =>
    rw [encode, List.flatMap_cons, List.append_assoc, scan_encodeChar, List.map_cons,
      List.cons_append]
    exact congrArg _ ih

theorem lossy_encode (cs : List Char) (rest : List UInt8) :
    fromUtf8Lossy (encode cs ++ rest) = cs ++ fromUtf8Lossy rest := by
  simp [fromUtf8Lossy, scan_encode, Function.comp_def]

theorem scan_eq_nil_iff {bytes : List UInt8} : scan bytes = [] ↔ bytes = [] := by
  cases bytes with
  | nil => simp [scan, scanFrom]
  | cons b rest => simp [scan_cons]

theorem eq_encode {bytes : List UInt8} {cs : List Char} (whole : scan bytes = cs.map some) :
    bytes = encode cs := by
  induction cs generalizing bytes with
  | nil => exact scan_eq_nil_iff.mp whole
  | cons c cs ih =>
    cases bytes with
    | nil => simp [scan, scanFrom] at whole
    | cons b rest =>
      rw [scan_cons, List.map_cons, List.cons.injEq] at whole
      obtain ⟨first, others⟩ := whole
      have spelled : b :: rest = encodeChar c ++ (next b rest).2 := eq_encodeChar (Prod.ext first rfl)
      rw [spelled, ih others]
      rfl

theorem mapM_id_eq_some_iff {marks : List (Option Char)} {cs : List Char} :
    marks.mapM id = some cs ↔ marks = cs.map some := by
  induction marks generalizing cs with
  | nil => cases cs <;> simp
  | cons mark marks ih =>
    cases mark with
    | none => cases cs <;> simp [List.mapM_cons]
    | some c =>
      simp only [List.mapM_cons, id, Option.bind_eq_bind, Option.bind_some, Option.pure_def,
        Option.bind_eq_some_iff, Option.some.injEq, ih]
      constructor
      · rintro ⟨others, rfl, rfl⟩
        rfl
      · intro same
        cases cs with
        | nil => cases same
        | cons d cs =>
          obtain ⟨head, rfl⟩ := List.cons.inj same
          exact ⟨cs, rfl, congrArg (· :: cs) (Option.some.inj head)⟩

/-- Exactly the encoded texts are accepted, each as itself. -/
theorem fromUtf8_eq_some_iff {bytes : List UInt8} {cs : List Char} :
    fromUtf8 bytes = some cs ↔ bytes = encode cs := by
  rw [fromUtf8, mapM_id_eq_some_iff]
  constructor
  · exact eq_encode
  · rintro rfl
    simpa [scan, scanFrom] using scan_encode cs []

end Utf8
