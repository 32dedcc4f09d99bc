import ItchParser.Endian

/-!
# Frames

A frame is a payload behind its length in two big-endian bytes. Every byte string is a sequence of
frames followed by a tail that does not begin with a complete frame, in one way only
(`exists_splits`, `Splits.unique`).
-/

namespace ItchParser

open BigEndian PackedRecord

/-- A payload whose length fits into the prefix. -/
structure Frame where
  payload : List UInt8
  fits : payload.length < 65536

namespace Frame

/-- A frame on the wire: the length of the payload and the payload. -/
def bytes (f : Frame) : List UInt8 := toBytes 2 f.payload.length ++ f.payload

/-- The bytes of consecutive frames. -/
def stream (fs : List Frame) : List UInt8 := fs.flatMap bytes

variable {f g : Frame} {fs gs : List Frame} {bs rest rest' : List UInt8}

@[simp] theorem length_bytes (f : Frame) : f.bytes.length = 2 + f.payload.length := by
  rw [bytes, List.length_append, length_toBytes]

@[simp] theorem stream_nil : stream [] = [] := rfl

@[simp] theorem stream_cons (f : Frame) (fs : List Frame) :
    stream (f :: fs) = f.bytes ++ stream fs := rfl

/-- A frame has two bytes at least. -/
theorem length_le_stream (fs : List Frame) : 2 * fs.length ≤ (stream fs).length := by
  induction fs with
  | nil => exact Nat.le_refl 0
  | cons f fs ih =>
      rw [stream_cons, List.length_append, length_bytes, List.length_cons]
      omega

/-! ## The length prefix -/

/-- The length that the first two bytes of a string announce. -/
def announced (bs : List UInt8) : Nat := (loadBe16 (bytesAt 0 2 bs)).toNat

/-- The prefix has 16 bits. -/
theorem announced_lt (bs : List UInt8) : announced bs < 65536 := UInt16.toNat_lt _

/-- The prefix of a frame announces the length of its payload. -/
theorem loadBe16_bytes (f : Frame) (rest : List UInt8) :
    loadBe16 (bytesAt 0 2 (f.bytes ++ rest)) = UInt16.ofNat f.payload.length := by
  rw [loadBe16_eq, bytes, List.append_assoc, toList_bytesAt (length_toBytes _ _),
    ofBytes_toBytes_of_lt f.fits]

/-- A frame announces the length of its payload. -/
theorem announced_bytes (f : Frame) (rest : List UInt8) :
    announced (f.bytes ++ rest) = f.payload.length := by
  rw [announced, loadBe16_bytes]
  exact UInt16.toNat_ofNat_of_lt' f.fits

/-- The prefix is the announced length. -/
theorem toBytes_announced (h : 2 ≤ bs.length) : toBytes 2 (announced bs) = bs.take 2 := by
  have hlength : (bs.take 2).length = 2 := by
    rw [List.length_take]
    omega
  have hlt := ofBytes_lt (bs.take 2)
  rw [hlength] at hlt
  have hread := toList_bytesAt hlength (bs.drop 2)
  rw [List.take_append_drop] at hread
  have hvalue : announced bs = ofBytes (bs.take 2) := by
    rw [announced, loadBe16_eq, hread]
    exact UInt16.toNat_ofNat_of_lt' hlt
  rw [hvalue, toBytes_ofBytes hlength]

/-- A string that is long enough for the announced payload begins with a frame. -/
theorem exists_frame (h : 2 + announced bs ≤ bs.length) : ∃ f rest, bs = bytes f ++ rest := by
  have hlength : ((bs.drop 2).take (announced bs)).length = announced bs := by
    rw [List.length_take, List.length_drop]
    omega
  refine ⟨⟨(bs.drop 2).take (announced bs), hlength.trans_lt (announced_lt bs)⟩,
    (bs.drop 2).drop (announced bs), ?_⟩
  simp only [bytes, hlength]
  rw [toBytes_announced (by omega), List.append_assoc, List.take_append_drop,
    List.take_append_drop]

/-! ## The decomposition of a string -/

/-- The string does not begin with a complete frame. -/
def Incomplete (bs : List UInt8) : Prop := ∀ f rest, bs ≠ bytes f ++ rest

/-- When the bytes end within a frame. -/
theorem incomplete_iff : Incomplete bs ↔ bs.length < 2 + announced bs := by
  constructor
  · intro h
    by_contra hle
    obtain ⟨f, rest, hbs⟩ := exists_frame (Nat.not_lt.mp hle)
    exact h f rest hbs
  · rintro h f rest rfl
    rw [announced_bytes, List.length_append, length_bytes] at h
    omega

/-- Less than a prefix is incomplete. -/
theorem incomplete_of_short (h : bs.length < 2) : Incomplete bs :=
  incomplete_iff.mpr (by omega)

/-- No frame is a proper prefix of another one. -/
theorem bytes_append_inj (h : f.bytes ++ rest = g.bytes ++ rest') : f = g ∧ rest = rest' := by
  have hlength : f.payload.length = g.payload.length := by
    rw [← announced_bytes f rest, h, announced_bytes]
  have hbytes : f.bytes.length = g.bytes.length := by rw [length_bytes, length_bytes, hlength]
  obtain ⟨hframe, hrest⟩ := List.append_inj h hbytes
  rw [bytes, bytes, hlength] at hframe
  obtain ⟨payload, hfits⟩ := f
  obtain ⟨payload', hfits'⟩ := g
  cases List.append_cancel_left hframe
  exact ⟨rfl, hrest⟩

/-- The string is the frames followed by a tail that does not begin with a complete frame. -/
structure Splits (bs : List UInt8) (fs : List Frame) (tail : List UInt8) : Prop where
  eq : bs = stream fs ++ tail
  incomplete : Incomplete tail

/-- Any bytes are frames and an incomplete tail. -/
theorem exists_splits (bs : List UInt8) : ∃ fs tail, Splits bs fs tail := by
  by_cases h : Incomplete bs
  · exact ⟨[], bs, rfl, h⟩
  · rw [incomplete_iff] at h
    obtain ⟨f, rest, hbs⟩ := exists_frame (Nat.not_lt.mp h)
    have hshorter : rest.length < bs.length := by
      rw [hbs, List.length_append, length_bytes]
      omega
    obtain ⟨fs, tail, hrest, htail⟩ := exists_splits rest
    exact ⟨f :: fs, tail, by rw [stream_cons, List.append_assoc, hbs, hrest], htail⟩
termination_by bs.length

/-- Frames at the beginning of a string are the first frames of its decomposition. -/
theorem Splits.first_frames {tail : List UInt8} (h : Splits bs fs tail)
    (hgs : bs = stream gs ++ rest) : gs <+: fs := by
  obtain ⟨rfl, htail⟩ := h
  induction gs generalizing fs with
  | nil => exact List.nil_prefix
  | cons g gs ih =>
      rw [stream_cons, List.append_assoc] at hgs
      cases fs with
      | nil => exact absurd hgs (htail g _)
      | cons f fs =>
          rw [stream_cons, List.append_assoc] at hgs
          obtain ⟨rfl, hrest⟩ := bytes_append_inj hgs
          exact List.cons_prefix_cons.mpr ⟨rfl, ih hrest⟩

/-- There is one way to cut the bytes into frames. -/
theorem Splits.unique {tail tail' : List UInt8} (h : Splits bs fs tail) (h' : Splits bs gs tail') :
    fs = gs ∧ tail = tail' := by
  have hle := (h.first_frames h'.eq).length_le
  have hfs : fs = gs := (h'.first_frames h.eq).eq_of_length_le hle
  subst hfs
  exact ⟨rfl, List.append_cancel_left (h.eq.symm.trans h'.eq)⟩

/-- More bytes behind a tail may complete further frames, but not change those in front of it. -/
theorem Splits.append {more tail tail' : List UInt8} (h : Splits bs fs tail)
    (h' : Splits (tail ++ more) gs tail') : Splits (bs ++ more) (fs ++ gs) tail' := by
  refine ⟨?_, h'.incomplete⟩
  rw [h.eq, List.append_assoc, h'.eq, stream, stream, stream, List.flatMap_append,
    List.append_assoc]

end Frame
end ItchParser
