import ItchParser.Lib.FreeRunning
import ItchParser.Logger

/-!
# The flow of entries through the ring

`Flow` is the invariant of the counters, the slots and the two threads' local variables. It is
stated with the numbers of entries that the counters count, so it does not depend on whether a
counter has wrapped around. Only the producer touches slots outside the published entries, and only
the drain thread moves the tail; the frame lemmas say what one thread may assume about the other.
-/

namespace ItchParser

open FreeRunning

/-! ## What a finished slot says -/

/-- A NUL ends the text. -/
theorem cString_append_nul (front behind : List UInt8) :
    cString (front ++ 0 :: behind) = cString front := by
  induction front with
  | nil => rfl
  | cons c front ih =>
      unfold cString at ih ⊢
      rw [List.cons_append, List.takeWhile_cons, List.takeWhile_cons, ih]

/-- A tag is cut to six bytes. -/
theorem cString_copyTag (src : List UInt8) :
    cString (copyTag src).toList = cString (src.take 6) := by
  have hpos : 7 - min 6 src.length = 6 - min 6 src.length + 1 := by omega
  show cString (src.take 6 ++ List.replicate (7 - min 6 src.length) 0) = _
  rw [hpos, List.replicate_succ, cString_append_nul]

/-- A message is cut to 239 bytes. -/
theorem cString_copyMsg (dst : Vector UInt8 240) (src : List UInt8) :
    cString (copyMsg dst src).toList = cString (src.take 239) :=
  cString_append_nul _ _

namespace LoggerState

variable {L : RingLayout} {s s' : LoggerState} {call : LogCall} {h now : UInt64} {b : Batch}
  {j k : Nat}

/-! ## The invariant -/

/-- The slot of a position. -/
def cell (L : RingLayout) (s : LoggerState) (k : UInt64) : LogEntry :=
  s.ring (L.slot k)

/-- The producer owns the slot behind the last published entry. -/
def Writes (L : RingLayout) (s : LoggerState) (h : UInt64) : Prop :=
  h = s.head ∧ s.accepted.length < s.published + L.capacity.toNat

/-- What the producer knows at each point of `log`. -/
def ProducerOk (L : RingLayout) (s : LoggerState) : Producer → Prop
  | .idle | .loadMinLevel _ | .loadHead _ | .addDropped _ => True
  | .loadTail _ h => h = s.head
  | .writeTimestamp _ h => s.Writes L h
  | .writeLevel _ h now => s.Writes L h ∧ (s.cell L h).timestampNs = now
  | .writeTag call h now =>
      s.Writes L h ∧ (s.cell L h).timestampNs = now ∧ (s.cell L h).level = call.level
  | .writeMessage call h now =>
      s.Writes L h ∧ (s.cell L h).timestampNs = now ∧ (s.cell L h).level = call.level ∧
        (s.cell L h).tag = copyTag call.tag
  | .storeHead call h now => s.Writes L h ∧ (s.cell L h).record = call.record now

/-- The batch starts at the tail, covers accepted entries only, and was read correctly so far. -/
structure Holds (s : LoggerState) (b : Batch) : Prop where
  start : b.t = s.tail
  within : s.published + b.count ≤ s.accepted.length
  fits : b.entries.length ≤ b.count
  entries : b.entries.map LogEntry.record =
    (s.accepted.drop s.published).take b.entries.length

/-- There are entries of the batch left to read. -/
def Reads (s : LoggerState) (b : Batch) : Prop :=
  s.Holds b ∧ b.entries.length < b.count

/-- What the drain thread knows at each point of `drain_loop`. -/
def DrainOk (L : RingLayout) (s : LoggerState) : Drain → Prop
  | .absent | .loadRunning | .loadHead _ | .finished => True
  | .loadTail _ h => ∃ seen, h = UInt64.ofNat seen ∧ s.published ≤ seen ∧ seen ≤ s.accepted.length
  | .readTimestamp b => s.Reads b
  | .readLevel b timestamp => s.Reads b ∧ (s.cell L b.position).timestampNs = timestamp
  | .readTag b timestamp level =>
      s.Reads b ∧ (s.cell L b.position).timestampNs = timestamp ∧
        (s.cell L b.position).level = level
  | .readMessage b timestamp level tag =>
      s.Reads b ∧ (s.cell L b.position).timestampNs = timestamp ∧
        (s.cell L b.position).level = level ∧ (s.cell L b.position).tag = tag
  | .writeBatch b => s.Holds b ∧ b.entries.length = b.count
  | .storeTail b => b.t = s.tail ∧ s.published + b.count ≤ s.accepted.length

/-- How many entries are in the file that the tail does not count yet. -/
def unpublished : Drain → Nat
  | .storeTail b => b.count
  | _ => 0

/-- The invariant of the ring. -/
structure Flow (L : RingLayout) (s : LoggerState) : Prop where
  head : s.head = UInt64.ofNat s.accepted.length
  tail : s.tail = UInt64.ofNat s.published
  order : s.published ≤ s.accepted.length
  room : s.accepted.length ≤ s.published + L.capacity.toNat
  stored : ∀ k r, s.published ≤ k → s.accepted[k]? = some r →
    (s.cell L (UInt64.ofNat k)).record = r
  producer : s.ProducerOk L s.producer
  drain : s.DrainOk L s.drain
  drained : s.drained.map LogEntry.record = s.accepted.take s.drained.length
  length : s.drained.length = s.published + unpublished s.drain

/-! ## Positions and slots -/

/-- A position is the low word of the number of entries before it. -/
theorem Flow.position (h : s.Flow L) (hstart : b.t = s.tail) :
    b.position = UInt64.ofNat (s.published + b.entries.length) := by
  rw [Batch.position, hstart, h.tail, UInt64.ofNat_add]

/-- The difference that `log` and `drain_loop` compute is the number of entries in the ring. -/
theorem Flow.distance (h : s.Flow L) :
    (s.head - s.tail).toNat = s.accepted.length - s.published := by
  have horder := h.order
  have hroom := h.room
  have hcapacity := L.capacity.toNat_lt
  rw [h.head, h.tail, toNat_sub horder (by omega)]

/-- The slot behind the last entry is not the slot of an entry in the ring. -/
theorem Flow.slot_ne (hwrites : s.Writes L s.head) (hflow : s.Flow L) (hpublished : s.published ≤ k)
    (hk : k < s.accepted.length) : L.slot (UInt64.ofNat k) ≠ L.slot s.head := by
  have hroom := hwrites.2
  rw [hflow.head]
  exact FreeRunning.slot_ne L.capacity_eq hk (by omega)

/-! ## Frames -/

/-- What the producer knows survives what the other threads do. -/
theorem ProducerOk.frame {p : Producer} (h : s.ProducerOk L p) (hhead : s'.head = s.head)
    (hring : s'.ring = s.ring) (haccepted : s'.accepted = s.accepted)
    (hpublished : s.published ≤ s'.published) : s'.ProducerOk L p := by
  have hcell : ∀ k, s'.cell L k = s.cell L k := fun k => congrFun hring _
  have hwrites : ∀ {h}, s.Writes L h → s'.Writes L h := fun hw =>
    ⟨hw.1.trans hhead.symm, by have := hw.2; rw [haccepted]; omega⟩
  cases p with
  | idle | loadMinLevel | loadHead | addDropped => trivial
  | loadTail call h' => exact h.trans hhead.symm
  | writeTimestamp call h' => exact hwrites h
  | writeLevel call h' now | writeTag call h' now | writeMessage call h' now
  | storeHead call h' now =>
      simp only [ProducerOk, hcell] at h ⊢
      exact ⟨hwrites h.1, h.2⟩

/-- The batch is not touched by steps that leave `tail` and the read entries alone. -/
theorem Holds.frame (h : s.Holds b) (htail : s'.tail = s.tail)
    (hpublished : s'.published = s.published) (haccepted : s.accepted <+: s'.accepted) :
    s'.Holds b := by
  obtain ⟨more, hmore⟩ := haccepted
  have hwithin := h.within
  have hfits := h.fits
  refine ⟨h.start.trans htail.symm, ?_, h.fits, ?_⟩
  · rw [hpublished, ← hmore, List.length_append]
    omega
  · rw [h.entries, hpublished, ← hmore, List.drop_append_of_le_length (by omega),
      List.take_append_of_le_length (by rw [List.length_drop]; omega)]

/-- What the drain thread knows survives what the producer does: the tail stays, entries are only
added, and the slots of the entries in the ring are not written. -/
theorem DrainOk.frame {d : Drain} (h : s.DrainOk L d) (hflow : s.Flow L) (htail : s'.tail = s.tail)
    (hpublished : s'.published = s.published) (haccepted : s.accepted <+: s'.accepted)
    (hcells : ∀ k, s.published ≤ k → k < s.accepted.length →
      s'.cell L (UInt64.ofNat k) = s.cell L (UInt64.ofNat k)) : s'.DrainOk L d := by
  have hreads : ∀ {b}, s.Reads b → s'.Reads b ∧ s'.cell L b.position = s.cell L b.position := by
    intro b hb
    have hwithin := hb.1.within
    have hleft := hb.2
    refine ⟨⟨hb.1.frame htail hpublished haccepted, hb.2⟩, ?_⟩
    rw [hflow.position hb.1.start]
    exact hcells _ (by omega) (by omega)
  have hlength := haccepted.length_le
  cases d with
  | absent | loadRunning | loadHead | finished => trivial
  | loadTail final h' =>
      obtain ⟨seen, hseen, hle, hlen⟩ := h
      exact ⟨seen, hseen, by omega, by omega⟩
  | readTimestamp b => exact (hreads h).1
  | readLevel b | readTag b | readMessage b =>
      obtain ⟨hb, hcell⟩ := hreads h.1
      simp only [DrainOk, hcell] at h ⊢
      exact ⟨hb, h.2⟩
  | writeBatch b => exact ⟨h.1.frame htail hpublished haccepted, h.2⟩
  | storeTail b => exact ⟨h.1.trans htail.symm, by have := h.2; omega⟩

end LoggerState
end ItchParser
