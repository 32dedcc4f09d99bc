import Mathlib.Data.Nat.ModEq
import Mathlib.Tactic.Ring

/-!
# Big-endian byte strings

`ofBytes` reads a byte string as a number in base 256, most significant byte first, and `toBytes n`
writes a number as `n` bytes, dropping what does not fit. Reversing the bytes of a word of `n` bytes
is `swap n`, so reading a string as little-endian and swapping is the same as reading it as
big-endian (`swap_ofBytes_reverse`).
-/

namespace BigEndian

/-- The number that the bytes denote. -/
def ofBytes : List UInt8 → Nat
  | [] => 0
  | b :: bs => b.toNat * 256 ^ bs.length + ofBytes bs

/-- The last `n` base 256 digits of `v`. -/
def toBytes : Nat → Nat → List UInt8
  | 0, _ => []
  | n + 1, v => UInt8.ofNat (v / 256 ^ n) :: toBytes n v

/-- The word with the bytes of `v` in the opposite order. -/
def swap (n v : Nat) : Nat := ofBytes (toBytes n v).reverse

@[simp] theorem length_toBytes (n v : Nat) : (toBytes n v).length = n := by
  induction n with
  | zero => rfl
  | succ n ih => rw [toBytes, List.length_cons, ih]

/-- The number that `n` bytes spell is less than 256 to the `n`. -/
theorem ofBytes_lt (bs : List UInt8) : ofBytes bs < 256 ^ bs.length := by
  induction bs with
  | nil => exact Nat.one_pos
  | cons b bs ih =>
      have hb : b.toNat + 1 ≤ 256 := b.toNat_lt
      calc b.toNat * 256 ^ bs.length + ofBytes bs
          < (b.toNat + 1) * 256 ^ bs.length := by rw [Nat.succ_mul]; omega
        _ ≤ 256 * 256 ^ bs.length := Nat.mul_le_mul_right _ hb
        _ = 256 ^ (b :: bs).length := by rw [List.length_cons, Nat.pow_succ, Nat.mul_comm]

/-- Writing a number with `n` bytes and reading it back takes it modulo 256 to the `n`. -/
theorem ofBytes_toBytes (n v : Nat) : ofBytes (toBytes n v) = v % 256 ^ n := by
  induction n with
  | zero => exact (Nat.mod_one v).symm
  | succ n ih =>
      have hdigit : (UInt8.ofNat (v / 256 ^ n)).toNat = v / 256 ^ n % 256 := UInt8.toNat_ofNat'
      rw [toBytes, ofBytes, ih, length_toBytes, hdigit, Nat.mod_pow_succ]
      ring

/-- A number that fits comes back unchanged. -/
theorem ofBytes_toBytes_of_lt {n v : Nat} (h : v < 256 ^ n) : ofBytes (toBytes n v) = v := by
  rw [ofBytes_toBytes, Nat.mod_eq_of_lt h]

/-- A multiple of `256 ^ n` has no digits among the last `n`. -/
theorem toBytes_add_mul (n v k : Nat) : toBytes n (k * 256 ^ n + v) = toBytes n v := by
  induction n generalizing k with
  | zero => rfl
  | succ n ih =>
      have hsplit : k * 256 ^ (n + 1) + v = k * 256 * 256 ^ n + v := by rw [Nat.pow_succ]; ring
      rw [toBytes, toBytes, hsplit, ih, Nat.add_comm,
        Nat.add_mul_div_right _ _ (pow_pos (by decide) _)]
      congr 1
      rw [← UInt8.toNat_inj, UInt8.toNat_ofNat', UInt8.toNat_ofNat']
      omega

/-- Reading bytes and writing the number gives the bytes again. -/
theorem toBytes_ofBytes {n : Nat} {bs : List UInt8} (h : bs.length = n) :
    toBytes n (ofBytes bs) = bs := by
  subst h
  induction bs with
  | nil => rfl
  | cons b bs ih =>
      have hlt := ofBytes_lt bs
      rw [List.length_cons, toBytes, ofBytes, toBytes_add_mul, ih, Nat.add_comm,
        Nat.add_mul_div_right _ _ (pow_pos (by decide) _), Nat.div_eq_of_lt hlt, Nat.zero_add,
        UInt8.ofNat_toNat]

/-- Swapping a word that was read in the wrong byte order gives the word in the right one. -/
theorem swap_ofBytes_reverse {n : Nat} {bs : List UInt8} (h : bs.length = n) :
    swap n (ofBytes bs.reverse) = ofBytes bs := by
  rw [swap, toBytes_ofBytes (by rwa [List.length_reverse]), List.reverse_reverse]

end BigEndian
