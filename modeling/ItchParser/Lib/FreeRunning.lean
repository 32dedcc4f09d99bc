import Mathlib.Data.Nat.ModEq

/-!
# Free-running counters

The two ends of a ring buffer are often kept as machine words that only ever grow and are masked
when a slot is addressed. The word of a counter is its low 64 bits. As long as the counters are
less than a word apart, their wrapping difference is the exact one, and as long as two positions are
less than the size of the ring apart, they have different slots, across any number of wraps.
-/

namespace FreeRunning

variable {t h j k bits : Nat} {capacity : UInt64}

/-- The wrapping difference of two counters. -/
theorem toNat_sub (hle : t ≤ h) (hlt : h < t + 18446744073709551616) :
    (UInt64.ofNat h - UInt64.ofNat t).toNat = h - t := by
  rw [UInt64.toNat_sub, UInt64.toNat_ofNat', UInt64.toNat_ofNat']
  omega

/-- Counters less than a word apart are the same when their words are. -/
theorem eq_of_word_eq (hle : t ≤ h) (hlt : h < t + 18446744073709551616)
    (heq : UInt64.ofNat t = UInt64.ofNat h) : t = h := by
  have hsub := toNat_sub hle hlt
  rw [heq, UInt64.sub_self, UInt64.toNat_zero] at hsub
  omega

/-- Masking with the size minus one takes a position modulo the size. -/
theorem toNat_and_mask (hcapacity : capacity.toNat = 2 ^ bits) (k : Nat) :
    (UInt64.ofNat k &&& (capacity - 1)).toNat = k % capacity.toNat := by
  have hlt := capacity.toNat_lt
  have hpos : 0 < capacity.toNat := by rw [hcapacity]; exact Nat.two_pow_pos bits
  have hbits : bits ≤ 64 := by
    rw [hcapacity] at hlt
    exact ((Nat.pow_lt_pow_iff_right (by decide)).mp hlt).le
  have hmask : (capacity - 1).toNat = 2 ^ bits - 1 := by
    have hone : (1 : UInt64).toNat = 1 := rfl
    rw [UInt64.toNat_sub_of_le _ _ (UInt64.le_iff_toNat_le.mpr (by omega)), hone, hcapacity]
  rw [UInt64.toNat_and, hmask, Nat.and_two_pow_sub_one_eq_mod, UInt64.toNat_ofNat', hcapacity]
  exact Nat.mod_mod_of_dvd k (Nat.pow_dvd_pow 2 hbits)

/-- Positions less than the size apart have different slots. -/
theorem slot_ne (hcapacity : capacity.toNat = 2 ^ bits) (hjk : j < k)
    (hclose : k < j + capacity.toNat) :
    UInt64.ofNat j &&& (capacity - 1) ≠ UInt64.ofNat k &&& (capacity - 1) := by
  intro heq
  have hmod : j % capacity.toNat = k % capacity.toNat := by
    rw [← toNat_and_mask hcapacity, ← toNat_and_mask hcapacity, heq]
  have hdvd := (Nat.modEq_iff_dvd' hjk.le).mp hmod
  have hle := Nat.le_of_dvd (by omega) hdvd
  omega

end FreeRunning
