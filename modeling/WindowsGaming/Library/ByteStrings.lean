import Mathlib.Algebra.Order.Ring.Nat
import Mathlib.Data.List.Basic

/- Text whose positions are counted in the bytes of its UTF-8 encoding. A slice that starts or
   ends inside a character fails, and so does one beyond the end. -/
namespace ByteStrings

def byteLen : List Char → Nat
  | [] => 0
  | c :: cs => c.utf8Size + byteLen cs

def splitAtByte : List Char → Nat → Option (List Char × List Char)
  | [], n => if n = 0 then some ([], []) else none
  | c :: cs, n =>
    if n = 0 then some ([], c :: cs)
    else if c.utf8Size ≤ n then
      (splitAtByte cs (n - c.utf8Size)).map fun (front, rest) => (c :: front, rest)
    else none

def sliceTo (cs : List Char) (stop : Nat) : Option (List Char) := (splitAtByte cs stop).map Prod.fst

def sliceFrom (cs : List Char) (start : Nat) : Option (List Char) :=
  (splitAtByte cs start).map Prod.snd

def slice (cs : List Char) (start stop : Nat) : Option (List Char) :=
  (sliceFrom cs start).bind fun rest => sliceTo rest (stop - start)

def hexValue (c : Char) : Option Nat :=
  let n := c.toNat
  -- the digits, and the letters in either case
  if 0x30 ≤ n ∧ n ≤ 0x39 then some (n - 0x30)
  else if 0x61 ≤ n ∧ n ≤ 0x66 then some (n - 0x57)
  else if 0x41 ≤ n ∧ n ≤ 0x46 then some (n - 0x37)
  else none

def pushDigit (n : Nat) (c : Char) : Option Nat :=
  (hexValue c).bind fun d => if 16 * n + d < 2 ^ 16 then some (16 * n + d) else none

/-- `u16::from_str_radix` in base 16: a plus sign may come first, and overflow is an error. -/
def fromStrRadix16 (src : List Char) : Option UInt16 :=
  let digits := match src with
    | '+' :: rest => rest
    | _ => src
  if digits = [] then none else (digits.foldlM pushDigit 0).map UInt16.ofNat

def isWhitespace (c : Char) : Bool :=
  let n := c.toNat
  (0x9 ≤ n && n ≤ 0xD) || n = 0x20 || n = 0x85 || n = 0xA0 || n = 0x1680 ||
    (0x2000 ≤ n && n ≤ 0x200A) || n = 0x2028 || n = 0x2029 || n = 0x202F || n = 0x205F || n = 0x3000

def trim (cs : List Char) : List Char :=
  (((cs.dropWhile isWhitespace).reverse).dropWhile isWhitespace).reverse

def hexNumber (digits : List Char) : Nat :=
  digits.foldl (fun n c => 16 * n + (hexValue c).getD 0) 0

def AllHex (digits : List Char) : Prop := ∀ c ∈ digits, (hexValue c).isSome = true

instance (digits : List Char) : Decidable (AllHex digits) :=
  List.decidableBAll (fun c => (hexValue c).isSome = true) digits

def Ascii (cs : List Char) : Prop := ∀ c ∈ cs, c.utf8Size = 1

instance (cs : List Char) : Decidable (Ascii cs) :=
  List.decidableBAll (fun c : Char => c.utf8Size = 1) cs

theorem byteLen_append (cs ds : List Char) : byteLen (cs ++ ds) = byteLen cs + byteLen ds := by
  induction cs with
  | nil => simp [byteLen]
  | cons c cs ih => simp only [List.cons_append, byteLen, ih, Nat.add_assoc]

section Slices
variable {front rest : List Char}

theorem byteLen_ascii (ascii : Ascii front) : byteLen front = front.length := by
  induction front with
  | nil => rfl
  | cons c front ih =>
    have tail : Ascii front := fun d member => ascii d (List.mem_cons_of_mem c member)
    rw [byteLen, ascii c List.mem_cons_self, ih tail, List.length_cons, Nat.add_comm]

theorem splitAtByte_ascii (ascii : Ascii front) (rest : List Char) :
    splitAtByte (front ++ rest) front.length = some (front, rest) := by
  induction front with
  | nil => cases rest <;> rfl
  | cons c front ih =>
    have tail : Ascii front := fun d member => ascii d (List.mem_cons_of_mem c member)
    have one : c.utf8Size = 1 := ascii c List.mem_cons_self
    simp [splitAtByte, one, ih tail]

theorem splitAtByte_front (ascii : Ascii front) {n : Nat} (inside : n ≤ front.length)
    (rest : List Char) :
    splitAtByte (front ++ rest) n = some (front.take n, front.drop n ++ rest) := by
  have part : Ascii (front.take n) := fun c member => ascii c (List.mem_of_mem_take member)
  have split := splitAtByte_ascii part (front.drop n ++ rest)
  rwa [← List.append_assoc, List.take_append_drop, List.length_take_of_le inside] at split

theorem sliceTo_front (ascii : Ascii front) {n : Nat} (inside : n ≤ front.length)
    (rest : List Char) : sliceTo (front ++ rest) n = some (front.take n) := by
  rw [sliceTo, splitAtByte_front ascii inside]
  rfl

theorem sliceFrom_front (ascii : Ascii front) {n : Nat} (inside : n ≤ front.length)
    (rest : List Char) : sliceFrom (front ++ rest) n = some (front.drop n ++ rest) := by
  rw [sliceFrom, splitAtByte_front ascii inside]
  rfl

theorem slice_front (ascii : Ascii front) {start stop : Nat} (ordered : start ≤ stop)
    (inside : stop ≤ front.length) (rest : List Char) :
    slice (front ++ rest) start stop = some ((front.drop start).take (stop - start)) := by
  have behind : Ascii (front.drop start) := fun c member => ascii c (List.mem_of_mem_drop member)
  have short : stop - start ≤ (front.drop start).length := by
    rw [List.length_drop]
    omega
  rw [slice, sliceFrom_front ascii (ordered.trans inside), Option.bind_some,
    sliceTo_front behind short]

end Slices

section Digits
variable {c : Char} {digits : List Char}

theorem hexValue_bounds {d : Nat} (value : hexValue c = some d) : d ≤ 15 ∧ c.val ≤ 127 := by
  have small : d ≤ 15 ∧ c.toNat ≤ 127 := by
    simp only [hexValue] at value
    split at value
    · have := Option.some.inj value
      omega
    · split at value
      · have := Option.some.inj value
        omega
      · split at value
        · have := Option.some.inj value
          omega
        · cases value
  exact ⟨small.1, UInt32.le_iff_toNat_le.mpr small.2⟩

theorem ascii_of_allHex (hex : AllHex digits) : Ascii digits := by
  intro c member
  obtain ⟨d, value⟩ := Option.isSome_iff_exists.mp (hex c member)
  exact Char.utf8Size_eq_one_iff.mpr (hexValue_bounds value).2

theorem foldlM_pushDigit (hex : AllHex digits) (n : Nat) (room : (n + 1) * 16 ^ digits.length ≤ 2 ^ 16) :
    digits.foldlM pushDigit n =
      some (digits.foldl (fun n c => 16 * n + (hexValue c).getD 0) n) := by
  induction digits generalizing n with
  | nil => rfl
  | cons c digits ih =>
    obtain ⟨d, value⟩ := Option.isSome_iff_exists.mp (hex c List.mem_cons_self)
    have small := (hexValue_bounds value).1
    have tail : AllHex digits := fun e member => hex e (List.mem_cons_of_mem c member)
    have left : (16 * n + d + 1) * 16 ^ digits.length ≤ 2 ^ 16 := by
      have step : (16 * n + d + 1) * 16 ^ digits.length ≤ (16 * (n + 1)) * 16 ^ digits.length :=
        Nat.mul_le_mul_right _ (by omega)
      have same : (16 * (n + 1)) * 16 ^ digits.length = (n + 1) * 16 ^ (digits.length + 1) := by
        rw [Nat.pow_succ', ← Nat.mul_assoc, Nat.mul_comm 16]
      exact step.trans (same ▸ room)
    have fits : 16 * n + d < 2 ^ 16 := by
      have one := Nat.one_le_pow digits.length 16 (by omega)
      have above := Nat.le_mul_of_pos_right (16 * n + d + 1) one
      omega
    rw [List.foldlM_cons, List.foldl_cons, pushDigit, value, Option.bind_some, if_pos fits]
    exact ih tail _ left

theorem fromStrRadix16_hex (some_digit : digits ≠ []) (short : digits.length ≤ 4)
    (hex : AllHex digits) : fromStrRadix16 digits = some (UInt16.ofNat (hexNumber digits)) := by
  have room : (0 + 1) * 16 ^ digits.length ≤ 2 ^ 16 := by
    rw [Nat.zero_add, Nat.one_mul, show 2 ^ 16 = 16 ^ 4 by decide]
    exact Nat.pow_le_pow_right (by omega) short
  have read := foldlM_pushDigit hex 0 room
  unfold fromStrRadix16
  split
  · rename_i rest
    have plus := hex '+' List.mem_cons_self
    cases plus
  · simp only
    rw [if_neg some_digit, read]
    rfl

theorem fromStrRadix16_tab (cs : List Char) : fromStrRadix16 ('\t' :: cs) = none := by
  have none_read : ('\t' :: cs).foldlM pushDigit 0 = none := rfl
  change (if '\t' :: cs = [] then none else (('\t' :: cs).foldlM pushDigit 0).map UInt16.ofNat) = none
  rw [none_read, if_neg (List.cons_ne_nil _ _), Option.map_none]

end Digits

theorem trim_append_white {white : List Char} (blank : ∀ c ∈ white, isWhitespace c = true)
    (cs : List Char) : trim (white ++ cs) = trim cs := by
  rw [trim, List.dropWhile_append_of_pos blank, trim]

end ByteStrings
