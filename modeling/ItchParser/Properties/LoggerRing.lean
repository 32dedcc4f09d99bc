import ItchParser.Logger.Calls

/-!
# No loss, no duplication, no overwrite

What holds of the logger's ring in every state of every interleaving of one producer, the drain
thread and the owner that starts and stops it. Two limits are shown behind it: as numbers the
counters lose their order when the head wraps around, and a `stop` leaves behind what a `log` call
publishes that was in progress when the `stop` began.
-/

namespace ItchParser

open FreeRunning Machine

/-- The position whose slot the producer is about to write. -/
def Producer.writes : Producer → Option UInt64
  | .writeTimestamp _ h | .writeLevel _ h _ | .writeTag _ h _ | .writeMessage _ h _ => some h
  | .idle | .loadMinLevel _ | .loadHead _ | .loadTail _ _ | .addDropped _ | .storeHead _ _ _ => none

/-- The batch that the drain thread is reading. -/
def Drain.reading : Drain → Option Batch
  | .readTimestamp b | .readLevel b _ | .readTag b _ _ | .readMessage b _ _ _ => some b
  | .absent | .loadRunning | .loadHead _ | .loadTail _ _ | .writeBatch _ | .storeTail _
  | .finished => none

namespace LoggerState

/-- The positions that the drain thread may still read: those left in its batch, and all from the
tail to the head. -/
def MayRead (s : LoggerState) (k : UInt64) : Prop :=
  (∃ b, s.drain.reading = some b ∧
    ∃ i, b.entries.length ≤ i ∧ i < b.count ∧ k = b.t + UInt64.ofNat i) ∨
  ∃ i < (s.head - s.tail).toNat, k = s.tail + UInt64.ofNat i

/-- What the logger promises after the events of an interleaving. `published` and the length of
`accepted` are what the tail and the head count. The code compares the two words by their
difference; as numbers they are ordered until the head wraps around after `2^64` entries. -/
structure Safe (L : RingLayout) (events : List LogEvent) : Prop where
  head : (after L events).head = UInt64.ofNat (after L events).accepted.length
  tail : (after L events).tail = UInt64.ofNat (after L events).published
  order : (after L events).published ≤ (after L events).accepted.length ∧
    (after L events).accepted.length ≤ (after L events).published + L.capacity.toNat
  distance : (after L events).head - (after L events).tail ≤ L.capacity
  words : (after L events).accepted.length < 18446744073709551616 →
    (after L events).tail ≤ (after L events).head ∧
      (after L events).head.toNat ≤ (after L events).tail.toNat + L.capacity.toNat
  exclusive : ∀ h k, (after L events).producer.writes = some h → (after L events).MayRead k →
    L.slot k ≠ L.slot h
  inOrder : (after L events).drained.map LogEntry.record <+: (after L events).accepted
  admitted : admitted L events =
    finished L events ++ (after L events).producer.admitted.toList
  counted : (after L events).head + (after L events).dropped =
    UInt64.ofNat (finished L events).length
  complete : Stopped L events →
    (after L events).drained.map LogEntry.record = (after L events).accepted ∧
      (after L events).tail = (after L events).head

variable {L : RingLayout} {s : LoggerState} {h k : UInt64}

/-! ## What the invariant promises -/

/-- The entry that a call writes lies outside what is published. -/
theorem Flow.writing (hflow : s.Flow L) (hwrites : s.producer.writes = some h) :
    s.Writes L h := by
  have hp := hflow.producer
  cases hproducer : s.producer with
  | writeTimestamp call h' | writeLevel call h' | writeTag call h' | writeMessage call h' =>
      rw [hproducer] at hp hwrites
      cases hwrites
      first | exact hp | exact hp.1
  | idle | loadMinLevel | loadHead | loadTail | addDropped | storeHead =>
      rw [hproducer] at hwrites
      cases hwrites

/-- The batch that is read lies within what is published. -/
theorem Flow.reading {b : Batch} (hflow : s.Flow L) (hreading : s.drain.reading = some b) :
    s.Holds b := by
  have hd := hflow.drain
  cases hdrain : s.drain with
  | readTimestamp | readLevel | readTag | readMessage =>
      rw [hdrain] at hd hreading
      cases hreading
      first | exact hd.1 | exact hd.1.1
  | absent | loadRunning | loadHead | loadTail | writeBatch | storeTail | finished =>
      rw [hdrain] at hreading
      cases hreading

/-- The drain thread may only read entries that are in the ring. -/
theorem Flow.mayRead (hflow : s.Flow L) (hread : s.MayRead k) :
    ∃ n, k = UInt64.ofNat n ∧ s.published ≤ n ∧ n < s.accepted.length := by
  rcases hread with ⟨b, hreading, i, -, hi, rfl⟩ | ⟨i, hi, rfl⟩
  · have hholds := hflow.reading hreading
    have hwithin := hholds.within
    exact ⟨s.published + i, by rw [hholds.start, hflow.tail, UInt64.ofNat_add], by omega, by omega⟩
  · rw [hflow.distance] at hi
    exact ⟨s.published + i, by rw [hflow.tail, UInt64.ofNat_add], by omega, by omega⟩

/-- As numbers the counters are ordered until the head wraps around. -/
theorem Flow.ordered (hflow : s.Flow L) (hwrap : s.accepted.length < 18446744073709551616) :
    s.tail ≤ s.head ∧ s.head.toNat ≤ s.tail.toNat + L.capacity.toNat := by
  have horder := hflow.order
  have hroom := hflow.room
  rw [UInt64.le_iff_toNat_le, hflow.tail, hflow.head, UInt64.toNat_ofNat', UInt64.toNat_ofNat',
    Nat.mod_eq_of_lt hwrap, Nat.mod_eq_of_lt (by omega)]
  exact ⟨horder, hroom⟩

/-- The logger is safe in every state of every interleaving, for every capacity that is a power of
two. -/
theorem safe_after (L : RingLayout) (events : List LogEvent) : Safe L events := by
  have hflow := ((create_sound L).run events).flow
  refine {
    head := hflow.head, tail := hflow.tail, order := ⟨hflow.order, hflow.room⟩
    distance := ?_, words := hflow.ordered, exclusive := fun h k hwrites hread => ?_
    inOrder := ?_, admitted := admitted_eq L events, counted := counted L events
    complete := fun hstopped => ?_ }
  · have hroom := hflow.room
    rw [UInt64.le_iff_toNat_le, hflow.distance]
    omega
  · have hw := hflow.writing hwrites
    obtain ⟨n, rfl, hpublished, hn⟩ := hflow.mayRead hread
    obtain ⟨rfl, -⟩ := id hw
    exact hflow.slot_ne hw hpublished hn
  · rw [hflow.drained]
    exact List.take_prefix _ _
  · have hsettled := hstopped.settled
    exact ⟨hsettled.complete hflow, hsettled.empty⟩

/-- A `stop` ends the drain thread, closes the file and returns, if its drain thread has `drains`
steps to go. -/
def returning (drains : Nat) : List LogEvent :=
  .own true :: List.replicate drains .drain ++ List.replicate 2 (.own true)

/-- The owner starts the logger. -/
def started : List LogEvent :=
  .start :: List.replicate 4 (.own true)

/-- Four calls in a ring of two slots. The third finds the ring full, the fourth takes the slot of
the first. -/
def fourCalls : List LogEvent :=
  started ++ [.log ⟨.Warn, [65], [66, 67]⟩] ++ List.replicate 8 (.produce 5) ++
    [.log ⟨.Info, [65], [68]⟩] ++ List.replicate 8 (.produce 6) ++
    [.log ⟨.Error, [65], [69]⟩] ++ List.replicate 4 (.produce 7) ++ List.replicate 13 .drain ++
    [.log ⟨.Fatal, [70], [71]⟩] ++ List.replicate 8 (.produce 8)

/-- A `stop` behind four calls leaves the three accepted entries in the file. -/
theorem safe_after_fourCalls :
    (after ⟨2, 1, rfl⟩ (fourCalls ++ .stop :: returning 11)).drained.map LogEntry.record =
        [⟨5, .Warn, [65], [66, 67]⟩, ⟨6, .Info, [65], [68]⟩, ⟨8, .Fatal, [70], [71]⟩] ∧
      (after ⟨2, 1, rfl⟩ (fourCalls ++ .stop :: returning 11)).tail =
        (after ⟨2, 1, rfl⟩ (fourCalls ++ .stop :: returning 11)).head ∧
      (after ⟨2, 1, rfl⟩ (fourCalls ++ .stop :: returning 11)).head +
        (after ⟨2, 1, rfl⟩ (fourCalls ++ .stop :: returning 11)).dropped = 4 := by
  have hsafe := safe_after ⟨2, 1, rfl⟩ (fourCalls ++ .stop :: returning 11)
  have hreturns : StopReturns ⟨2, 1, rfl⟩ fourCalls (returning 11) :=
    ⟨by decide +kernel, by decide +kernel, ⟨returning 11, List.prefix_refl _, by decide +kernel⟩,
      by decide⟩
  obtain ⟨hdrained, hempty⟩ :=
    hsafe.complete ⟨fourCalls, returning 11, rfl, hreturns, by decide +kernel⟩
  refine ⟨hdrained.trans (by decide +kernel), hempty, ?_⟩
  rw [hsafe.counted]
  decide +kernel

/-! ## What it does not promise -/

/-- A call stores its entry and is about to publish it. -/
def storing : List LogEvent :=
  started ++ [.log ⟨.Warn, [65], [66]⟩] ++ List.replicate 7 (.produce 5)

/-- The logger runs, and its ring is empty at position `k`. -/
structure Waits (s : LoggerState) (k : UInt64) : Prop where
  producer : s.producer = .idle
  drain : s.drain = .loadRunning
  running : s.running = true
  minLevel : s.minLevel = 2
  head : s.head = k
  tail : s.tail = k

/-- One call. -/
def entry : List LogEvent :=
  .log ⟨.Warn, [65], [66]⟩ :: List.replicate 8 (.produce 5)

/-- One call whose entry goes to the file. -/
def throughput : List LogEvent :=
  entry ++ List.replicate 9 .drain

/-- One entry is logged. -/
theorem Waits.entry (h : s.Waits k) :
    (run (step ⟨1, 0, rfl⟩) s entry).producer = .idle ∧
    (run (step ⟨1, 0, rfl⟩) s entry).drain = .loadRunning ∧
    (run (step ⟨1, 0, rfl⟩) s entry).running = true ∧
    (run (step ⟨1, 0, rfl⟩) s entry).minLevel = 2 ∧
    (run (step ⟨1, 0, rfl⟩) s entry).head = k + 1 ∧ (run (step ⟨1, 0, rfl⟩) s entry).tail = k := by
  obtain ⟨hproducer, hdrain, hrunning, hlevel, hhead, htail⟩ := h
  simp [LoggerState.entry, List.replicate, step, produce, hproducer, hdrain, hrunning, hlevel,
    hhead, htail, writeSlot, LogLevel.toUnderlying]

/-- One entry is logged and drained. -/
theorem Waits.throughput (h : s.Waits k) : (run (step ⟨1, 0, rfl⟩) s throughput).Waits (k + 1) := by
  obtain ⟨hproducer, hdrain, hrunning, hlevel, hhead, htail⟩ := h.entry
  rw [LoggerState.throughput, run_append]
  generalize run (step ⟨1, 0, rfl⟩) s LoggerState.entry = t at *
  have hone : k + 1 - k = 1 := by grind
  constructor <;>
    simp [List.replicate, step, drainStep, nextBatch, nextEntry, hproducer, hdrain, hrunning,
      hlevel, hhead, htail, hone, kBatch]

/-- Every entry moves both counters on by one. -/
theorem waits_after (n : Nat) :
    (after ⟨1, 0, rfl⟩ (started ++ (List.replicate n throughput).flatten)).Waits
      (UInt64.ofNat n) := by
  induction n with
  | zero => constructor <;> rfl
  | succ n ih =>
      rw [List.replicate_succ', List.flatten_append, List.flatten_singleton, ← List.append_assoc,
        after, run_append, UInt64.ofNat_add]
      exact ih.throughput

/-- The head has counted `2^64` entries, and the last of them is in the ring. -/
def wrapping : List LogEvent :=
  started ++ (List.replicate 18446744073709551615 throughput).flatten ++ entry

/-- When the head wraps around, the tail is the greater number. A `stop` that begins while a call is
in progress returns before the call, and the entry stays in the ring. -/
theorem not_ordered_nor_flushed :
    ¬ (after ⟨1, 0, rfl⟩ wrapping).tail ≤ (after ⟨1, 0, rfl⟩ wrapping).head ∧
    StopReturns ⟨1, 0, rfl⟩ storing (returning 3 ++ [.produce 5]) ∧
    ¬ ((after ⟨1, 0, rfl⟩ (storing ++ .stop :: (returning 3 ++ [.produce 5]))).drained.map
          LogEntry.record =
        (after ⟨1, 0, rfl⟩ (storing ++ .stop :: (returning 3 ++ [.produce 5]))).accepted ∧
      (after ⟨1, 0, rfl⟩ (storing ++ .stop :: (returning 3 ++ [.produce 5]))).tail =
        (after ⟨1, 0, rfl⟩ (storing ++ .stop :: (returning 3 ++ [.produce 5]))).head) := by
  refine ⟨?_, ⟨by decide +kernel, by decide +kernel, ?_, by decide⟩, by decide +kernel⟩
  · obtain ⟨-, -, -, -, hhead, htail⟩ := (waits_after 18446744073709551615).entry
    rw [after, wrapping, run_append, hhead, htail]
    decide
  · exact ⟨returning 3, List.prefix_append _ _, by decide +kernel⟩

end LoggerState
end ItchParser
