import Mathlib.Algebra.Group.Nat.Defs
import Mathlib.Data.List.GetD

/-!
# Formatted output into a buffer

What the `printf` family of C does with the directives that a program uses: a format is a list of
directives with their arguments, and `expand` is the text that they produce. `snprintf` stores as
much of a text as fits and a NUL, and returns the length of the whole text. A buffer keeps the
offsets that were stored to, so that a client can say that nothing was stored outside.
-/

namespace Printf

/-- The bytes of ASCII characters. -/
def chars (cs : List Char) : List UInt8 :=
  cs.map Char.toUInt8

/-- A directive with its argument, or the text between two directives. -/
inductive Directive where
  | text (cs : List Char)
  /-- An unsigned decimal number, padded with zeros: `%0*u`. -/
  | unsigned (width n : Nat)
  /-- A string up to its NUL: `%s`. -/
  | string (bytes : List UInt8)
  /-- A string up to its NUL, but no more bytes than the precision: `%.*s`. -/
  | stringOf (precision : Nat) (bytes : List UInt8)

/-- The decimal digits of a number behind enough zeros for the width. -/
def decimal (width n : Nat) : List UInt8 :=
  let digits := chars (Nat.toDigits 10 n)
  List.replicate (width - digits.length) 48 ++ digits

/-- The text of one directive. -/
def Directive.expand : Directive → List UInt8
  | text cs => chars cs
  | unsigned width n => decimal width n
  | string bytes => bytes.takeWhile fun c => c ≠ 0
  | stringOf precision bytes => (bytes.takeWhile fun c => c ≠ 0).take precision

/-- The text of a format. -/
def expand (format : List Directive) : List UInt8 :=
  format.flatMap Directive.expand

/-- Bytes of memory, and the offsets stored to so far. -/
structure Buffer where
  bytes : Nat → UInt8
  stores : List Nat

namespace Buffer

/-- Stores consecutive bytes from the offset `start` on. -/
def store (m : Buffer) (start : Nat) (bs : List UInt8) : Buffer where
  bytes := fun o => if start ≤ o ∧ o < start + bs.length then bs.getD (o - start) 0 else m.bytes o
  stores := m.stores ++ List.range' start bs.length

/-- The first `n` bytes. -/
def front (m : Buffer) (n : Nat) : List UInt8 :=
  (List.range n).map m.bytes

end Buffer

/-- `snprintf(m + start, size, ...)` for a format with the given text. -/
def snprintf (m : Buffer) (start size : Nat) (text : List UInt8) : Buffer × Nat :=
  if size = 0 then (m, text.length)
  else (m.store start (text.take (size - 1) ++ [0]), text.length)

/-! ## Numbers -/

variable {width n : Nat}

/-- A number that fits its width is printed with exactly that many digits. -/
theorem length_decimal (hwidth : 0 < width) (hn : n < 10 ^ width) :
    (decimal width n).length = width := by
  have hlength : (Nat.toDigits 10 n).length ≤ width :=
    (Nat.length_toDigits_le_iff (by decide) hwidth).mpr hn
  simp only [decimal, chars, List.length_append, List.length_replicate, List.length_map]
  omega

/-- A decimal number consists of digits. -/
theorem mem_decimal {c : UInt8} (hc : c ∈ decimal width n) : 48 ≤ c ∧ c ≤ 57 := by
  rcases List.mem_append.mp hc with hc | hc
  · rw [List.eq_of_mem_replicate hc]
    decide
  · obtain ⟨d, hd, rfl⟩ := List.mem_map.mp hc
    have hdigit := Nat.isDigit_of_mem_toDigits (by decide) (by decide) hd
    simp only [Char.isDigit, Bool.and_eq_true, decide_eq_true_eq] at hdigit
    obtain ⟨hlow, hhigh⟩ := hdigit
    have hlow' : 48 ≤ d.val.toNat := hlow
    have hhigh' : d.val.toNat ≤ 57 := hhigh
    have hval : d.toUInt8.toNat = d.val.toNat := by
      rw [Char.toUInt8, UInt32.toNat_toUInt8]
      omega
    rw [UInt8.le_iff_toNat_le, UInt8.le_iff_toNat_le, hval]
    exact ⟨hlow', hhigh'⟩

/-! ## Buffers -/

variable {m : Buffer} {start : Nat} {bs text : List UInt8}

namespace Buffer

/-- The front of a buffer, cut in two. -/
theorem front_add (m : Buffer) (k n : Nat) :
    m.front (k + n) = m.front k ++ (List.range' k n).map m.bytes := by
  rw [front, front, List.range_eq_range', List.range_eq_range', ← List.map_append,
    ← List.range'_append]
  simp

/-- The front only depends on the bytes in it. -/
theorem front_congr {m' : Buffer} (h : ∀ o < n, m'.bytes o = m.bytes o) :
    m'.front n = m.front n :=
  List.map_congr_left fun o ho => h o (List.mem_range.mp ho)

/-- The front of a buffer after bytes were stored right behind it. -/
theorem front_store {k : Nat} (hk : k ≤ bs.length) :
    (m.store start bs).front (start + k) = m.front start ++ bs.take k := by
  rw [front_add, front_congr fun o ho => if_neg (by omega)]
  congr 1
  refine List.ext_getElem ?_ fun i hi _ => ?_
  · simp only [List.length_map, List.length_range', List.length_take]
    omega
  · simp only [List.length_map, List.length_range'] at hi
    simp only [List.getElem_map, List.getElem_range', Nat.one_mul, store, List.getElem_take]
    rw [if_pos (by omega), Nat.add_sub_cancel_left, List.getD_eq_getElem _ _ (by omega)]

end Buffer

/-! ## `snprintf` -/

variable {size : Nat}

/-- Reading on behind `start` after a call of `snprintf` there: the text, cut to the size, and the
NUL. -/
theorem front_snprintf (hsize : 0 < size) {k : Nat} (hk : k ≤ text.length) (hk' : k ≤ size) :
    (snprintf m start size text).1.front (start + k) =
      m.front start ++ (text.take (size - 1) ++ [0]).take k := by
  rw [snprintf, if_neg (Nat.ne_of_gt hsize)]
  refine Buffer.front_store ?_
  rw [List.length_append, List.length_take, List.length_singleton]
  omega

/-- A call of `snprintf` stores to at most `size` consecutive bytes. -/
theorem stores_snprintf (m : Buffer) (start size : Nat) (text : List UInt8) :
    ∃ k ≤ size, (snprintf m start size text).1.stores = m.stores ++ List.range' start k := by
  unfold snprintf
  split
  · exact ⟨0, Nat.zero_le _, (List.append_nil _).symm⟩
  · refine ⟨(text.take (size - 1) ++ [0]).length, ?_, rfl⟩
    rw [List.length_append, List.length_take, List.length_singleton]
    omega

/-- `snprintf` returns the length of the whole text, whatever fits. -/
theorem snprintf_length (m : Buffer) (start size : Nat) (text : List UInt8) :
    (snprintf m start size text).2 = text.length := by
  unfold snprintf
  split <;> rfl

end Printf
