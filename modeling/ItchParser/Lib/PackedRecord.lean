import Mathlib.Data.List.GetD

/-!
# Decoders of packed records

A packed record is a byte string whose fields follow one another without padding. A decoder of a
record is given the address of the record and loads bytes at fixed offsets from it. It keeps the
offsets next to the value, and the value depends on the bytes at these offsets only. So once the
offsets of a decoder are known to lie inside a window, its value does not depend on what follows the
window (`Decoder.value_append`).
-/

namespace PackedRecord

/-- A field of a packed record. -/
structure Field where
  offset : Nat
  width : Nat

/-- The field of the given width right after another one. -/
def Field.next (f : Field) (width : Nat) : Field := ⟨f.offset + f.width, width⟩

/-- The size of a record whose last field this is. -/
def Field.stop (f : Field) : Nat := f.offset + f.width

/-- The byte at offset `off`. -/
def byteAt (off : Nat) (bs : List UInt8) : UInt8 := bs.getD off 0

/-- The `n` bytes from offset `off`. -/
def bytesAt (off n : Nat) (bs : List UInt8) : Vector UInt8 n :=
  Vector.ofFn fun i => byteAt (off + i) bs

variable {α β : Type} {n off : Nat} {bs rest : List UInt8}

/-! ## Bytes behind a prefix -/

@[simp] theorem byteAt_zero_cons (b : UInt8) : byteAt 0 (b :: rest) = b := rfl

@[simp] theorem byteAt_cons (off : Nat) (b : UInt8) :
    byteAt (off + 1) (b :: rest) = byteAt off rest := by
  rw [byteAt, byteAt, List.getD_cons_succ]

/-- A byte of the first part. -/
theorem byteAt_append_left (h : off < bs.length) : byteAt off (bs ++ rest) = byteAt off bs :=
  List.getD_append _ _ _ _ h

@[simp] theorem byteAt_append (h : bs.length ≤ off) :
    byteAt off (bs ++ rest) = byteAt (off - bs.length) rest :=
  List.getD_append_right _ _ _ _ h

@[simp] theorem bytesAt_append (h : bs.length ≤ off) :
    bytesAt off n (bs ++ rest) = bytesAt (off - bs.length) n rest := by
  refine Vector.ext fun i hi => ?_
  have hle : bs.length ≤ off + i := by omega
  have hsub : off + i - bs.length = off - bs.length + i := by omega
  simp only [bytesAt, Vector.getElem_ofFn, byteAt_append hle, hsub]

@[simp] theorem bytesAt_cons (off n : Nat) (b : UInt8) :
    bytesAt (off + 1) n (b :: rest) = bytesAt off n rest := by
  have hlength : [b].length ≤ off + 1 := Nat.le_add_left 1 off
  exact bytesAt_append hlength

/-- The first bytes of a string are what is in front of the rest. -/
@[simp] theorem bytesAt_toList (v : Vector UInt8 n) : bytesAt 0 n (v.toList ++ rest) = v := by
  refine Vector.ext fun i hi => ?_
  have hlt : i < v.toList.length := by rwa [Vector.length_toList]
  rw [bytesAt, Vector.getElem_ofFn, Nat.zero_add, byteAt_append_left hlt, byteAt,
    List.getD_eq_getElem _ _ hlt, Vector.getElem_toList]

/-- A field of `n` bytes at the front is these bytes. -/
theorem toList_bytesAt (h : bs.length = n) (rest : List UInt8) :
    (bytesAt 0 n (bs ++ rest)).toList = bs := by
  subst h
  let v : Vector UInt8 bs.length := ⟨bs.toArray, rfl⟩
  have hv : v.toList = bs := rfl
  calc (bytesAt 0 bs.length (bs ++ rest)).toList
      = (bytesAt 0 bs.length (v.toList ++ rest)).toList := by rw [hv]
    _ = bs := by rw [bytesAt_toList, hv]

/-! ## Decoders -/

/-- Code that loads bytes of a record. -/
structure Decoder (α : Type) where
  /-- The offsets of the bytes that it loads. -/
  offsets : List Nat
  /-- What it makes of the bytes from the address of the record on. -/
  value : List UInt8 → α
  /-- The other bytes do not matter. -/
  value_congr : ∀ bs bs' : List UInt8, (∀ o ∈ offsets, byteAt o bs = byteAt o bs') →
    value bs = value bs'

namespace Decoder

/-- Loads one byte. -/
def byte (off : Nat) : Decoder UInt8 where
  offsets := [off]
  value := byteAt off
  value_congr _ _ h := h off List.mem_cons_self

/-- Loads `n` consecutive bytes. -/
def bytes (off n : Nat) : Decoder (Vector UInt8 n) where
  offsets := (List.range n).map (off + ·)
  value := bytesAt off n
  value_congr bs bs' h := by
    refine Vector.ext fun i hi => ?_
    simp only [bytesAt, Vector.getElem_ofFn]
    exact h _ (List.mem_map_of_mem (List.mem_range.mpr hi))

instance : Applicative Decoder where
  pure a :=
    { offsets := []
      value := fun _ => a
      value_congr := fun _ _ _ => rfl }
  map f d :=
    { offsets := d.offsets
      value := fun bs => f (d.value bs)
      value_congr := fun bs bs' h => congrArg f (d.value_congr bs bs' h) }
  seq f d :=
    { offsets := f.offsets ++ (d ()).offsets
      value := fun bs => f.value bs ((d ()).value bs)
      value_congr := fun bs bs' h => by
        rw [f.value_congr bs bs' fun o ho => h o (List.mem_append_left _ ho),
          (d ()).value_congr bs bs' fun o ho => h o (List.mem_append_right _ ho)] }

/-- What follows the loaded bytes does not matter. -/
theorem value_append (d : Decoder α) (h : ∀ o ∈ d.offsets, o < bs.length) :
    d.value (bs ++ rest) = d.value bs :=
  d.value_congr _ _ fun o ho => byteAt_append_left (h o ho)

end Decoder
end PackedRecord
