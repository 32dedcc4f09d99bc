import ItchParser.Lib.BigEndian
import ItchParser.Lib.PackedRecord

/-!
# Endian: loads of big-endian integers

The model of `Endian.hpp`. A load copies the bytes into an integer of the host and swaps it if the
host is little-endian. Either way the result is the number that the bytes denote in big-endian order
(`loadBe16_eq` and the like), so nothing else depends on the host. Only `load_be48` builds its
result byte by byte.
-/

namespace ItchParser

open BigEndian PackedRecord

/-- The hosts that the code is built for. No proof below looks at the value. -/
def kIsLittleEndian : Bool := true

/-- The number that `memcpy` of some bytes into an integer gives. -/
def copied (bs : List UInt8) : Nat :=
  if kIsLittleEndian then ofBytes bs.reverse else ofBytes bs

/-- The bytes of a 16-bit word in reverse order. -/
def bswap16 (v : UInt16) : UInt16 := UInt16.ofNat (swap 2 v.toNat)

/-- The bytes of a 32-bit word in reverse order. -/
def bswap32 (v : UInt32) : UInt32 := UInt32.ofNat (swap 4 v.toNat)

/-- The bytes of a 64-bit word in reverse order. -/
def bswap64 (v : UInt64) : UInt64 := UInt64.ofNat (swap 8 v.toNat)

example : bswap16 0x1234 = 0x3412 := by decide
example : bswap32 0x12345678 = 0x78563412 := by decide
example : bswap64 0x0102030405060708 = 0x0807060504030201 := by decide

/-- Copies two bytes and swaps them on a little-endian host. -/
def loadBe16 (p : Vector UInt8 2) : UInt16 :=
  let v := UInt16.ofNat (copied p.toList)
  if kIsLittleEndian then bswap16 v else v

/-- Copies four bytes and swaps them on a little-endian host. -/
def loadBe32 (p : Vector UInt8 4) : UInt32 :=
  let v := UInt32.ofNat (copied p.toList)
  if kIsLittleEndian then bswap32 v else v

/-- Copies eight bytes and swaps them on a little-endian host. -/
def loadBe64 (p : Vector UInt8 8) : UInt64 :=
  let v := UInt64.ofNat (copied p.toList)
  if kIsLittleEndian then bswap64 v else v

/-- Shifts six bytes into a word, one by one. -/
def loadBe48 (cp : Vector UInt8 6) : UInt64 :=
  let v : UInt64 := 0
  let v := v ||| (cp[0].toUInt64 <<< 40)
  let v := v ||| (cp[1].toUInt64 <<< 32)
  let v := v ||| (cp[2].toUInt64 <<< 24)
  let v := v ||| (cp[3].toUInt64 <<< 16)
  let v := v ||| (cp[4].toUInt64 <<< 8)
  v ||| cp[5].toUInt64

/-! ## What the loads return -/

section

variable {n : Nat}

/-- The copied number fits into an integer of as many bytes. -/
theorem copied_lt (p : Vector UInt8 n) : copied p.toList < 256 ^ n := by
  have hlength := p.length_toList
  rw [copied]
  split
  · have hlt := ofBytes_lt p.toList.reverse
    rwa [List.length_reverse, hlength] at hlt
  · have hlt := ofBytes_lt p.toList
    rwa [hlength] at hlt

/-- The swap, where there is one, makes up for the byte order of the host. -/
theorem swap_copied (p : Vector UInt8 n) :
    (if kIsLittleEndian then swap n (copied p.toList) else copied p.toList) =
      ofBytes p.toList := by
  unfold copied
  split
  · exact swap_ofBytes_reverse p.length_toList
  · rfl

end

/-- Two loaded bytes are the number they spell, most significant byte first. -/
theorem loadBe16_eq (p : Vector UInt8 2) : loadBe16 p = UInt16.ofNat (ofBytes p.toList) := by
  have hcopy : (UInt16.ofNat (copied p.toList)).toNat = copied p.toList :=
    UInt16.toNat_ofNat_of_lt' (copied_lt p)
  rw [loadBe16, bswap16, hcopy, ← swap_copied p]
  exact (apply_ite UInt16.ofNat _ _ _).symm

/-- Four loaded bytes are the number they spell. -/
theorem loadBe32_eq (p : Vector UInt8 4) : loadBe32 p = UInt32.ofNat (ofBytes p.toList) := by
  have hcopy : (UInt32.ofNat (copied p.toList)).toNat = copied p.toList :=
    UInt32.toNat_ofNat_of_lt' (copied_lt p)
  rw [loadBe32, bswap32, hcopy, ← swap_copied p]
  exact (apply_ite UInt32.ofNat _ _ _).symm

/-- Eight loaded bytes are the number they spell. -/
theorem loadBe64_eq (p : Vector UInt8 8) : loadBe64 p = UInt64.ofNat (ofBytes p.toList) := by
  have hcopy : (UInt64.ofNat (copied p.toList)).toNat = copied p.toList :=
    UInt64.toNat_ofNat_of_lt' (copied_lt p)
  rw [loadBe64, bswap64, hcopy, ← swap_copied p]
  exact (apply_ite UInt64.ofNat _ _ _).symm

/-- One step of `load_be48`: the byte goes below the bytes that are already there. -/
theorem toNat_or_shiftLeft {v k : UInt64} {a : Nat} (b : UInt8) (hk : k.toNat ≤ 40)
    (hv : v.toNat = a * 2 ^ (k.toNat + 8)) :
    (v ||| b.toUInt64 <<< k).toNat = (a * 256 + b.toNat) * 2 ^ k.toNat := by
  have hb := b.toNat_lt
  have hlow : b.toNat * 2 ^ k.toNat < 2 ^ (k.toNat + 8) := by
    rw [Nat.pow_add, Nat.mul_comm]
    exact Nat.mul_lt_mul_of_pos_left hb (Nat.two_pow_pos _)
  have hshift : (b.toUInt64 <<< k).toNat = b.toNat * 2 ^ k.toNat := by
    rw [UInt64.toNat_shiftLeft, UInt8.toNat_toUInt64, Nat.mod_eq_of_lt (by omega : k.toNat < 64),
      Nat.shiftLeft_eq]
    refine Nat.mod_eq_of_lt (hlow.trans_le (Nat.pow_le_pow_right (by decide) ?_))
    omega
  rw [UInt64.toNat_or, hv, hshift, Nat.mul_comm a, ← Nat.two_pow_add_eq_or_of_lt hlow,
    Nat.pow_add]
  ring

/-- The six bytes of a timestamp are the number they spell. -/
theorem loadBe48_eq (cp : Vector UInt8 6) : loadBe48 cp = UInt64.ofNat (ofBytes cp.toList) := by
  have hlist : cp.toList = [cp[0], cp[1], cp[2], cp[3], cp[4], cp[5]] := by
    obtain ⟨⟨bs⟩, hsize⟩ := cp
    match bs, hsize with
    | [a, b, c, d, e, f], _ => rfl
  have h0 := toNat_or_shiftLeft (v := 0) (k := 40) (a := 0) cp[0] (by decide) rfl
  have h1 := toNat_or_shiftLeft (k := 32) cp[1] (by decide) h0
  have h2 := toNat_or_shiftLeft (k := 24) cp[2] (by decide) h1
  have h3 := toNat_or_shiftLeft (k := 16) cp[3] (by decide) h2
  have h4 := toNat_or_shiftLeft (k := 8) cp[4] (by decide) h3
  have h5 := toNat_or_shiftLeft (k := 0) cp[5] (by decide) h4
  rw [UInt64.shiftLeft_zero] at h5
  have hvalue : (loadBe48 cp).toNat = ofBytes cp.toList := by
    rw [hlist]
    refine h5.trans ?_
    have hexp : (0 : UInt64).toNat = 0 := rfl
    simp only [ofBytes, List.length_cons, List.length_nil, hexp]
    ring
  rw [← hvalue, UInt64.ofNat_toNat]

end ItchParser
