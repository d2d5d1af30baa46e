import Mathlib.Algebra.Order.Ring.Nat

/- Numbers as a fixed count of bytes, lowest first. -/
namespace LittleEndian

def encode : Nat → Nat → List UInt8
  | 0, _ => []
  | w + 1, n => UInt8.ofNat (n % 256) :: encode w (n / 256)

def decode : List UInt8 → Nat
  | [] => 0
  | b :: rest => b.toNat + 256 * decode rest

@[simp] theorem length_encode (w n : Nat) : (encode w n).length = w := by
  induction w generalizing n with
  | zero => rfl
  | succ w ih => simp [encode, ih]

theorem decode_encode (w n : Nat) (fits : n < 256 ^ w) : decode (encode w n) = n := by
  induction w generalizing n with
  | zero =>
    rw [Nat.pow_zero] at fits
    simp only [encode, decode]
    omega
  | succ w ih =>
    have less : n / 256 < 256 ^ w := by
      rw [Nat.pow_succ] at fits
      omega
    have byte : (UInt8.ofNat (n % 256)).toNat = n % 256 := by simp
    simp only [encode, decode, byte, ih (n / 256) less]
    omega

theorem encode_decode (bs : List UInt8) : encode bs.length (decode bs) = bs := by
  induction bs with
  | nil => rfl
  | cons b bs ih =>
    have small := b.toNat_lt
    have low : (b.toNat + 256 * decode bs) % 256 = b.toNat := by omega
    have high : (b.toNat + 256 * decode bs) / 256 = decode bs := by omega
    simp only [List.length_cons, encode, decode, low, high, ih, UInt8.ofNat_toNat]

theorem decode_lt (bs : List UInt8) : decode bs < 256 ^ bs.length := by
  induction bs with
  | nil => simp [decode]
  | cons b bs ih =>
    have small := b.toNat_lt
    rw [List.length_cons, Nat.pow_succ, decode]
    omega

end LittleEndian
