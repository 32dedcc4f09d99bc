import ItchParser.Logger.Flow

/-!
# The steps of the two sides of the ring

Every step of the producer and every step of the drain thread keeps `Flow`.
-/

namespace ItchParser.LoggerState

open FreeRunning

variable {L : RingLayout} {s : LoggerState} {p : Producer} {d : Drain} {call : LogCall}
  {h now : UInt64} {b : Batch} {k : Nat}

/-- A new logger. -/
theorem create_flow (L : RingLayout) : create.Flow L where
  head := rfl
  tail := rfl
  order := Nat.le_refl _
  room := Nat.zero_le _
  stored := fun k r _ hr => by simp [create] at hr
  producer := trivial
  drain := trivial
  drained := rfl
  length := rfl

/-! ## The producer -/

/-- The thread that logs moves on without touching the ring. -/
theorem Flow.setProducer (hflow : s.Flow L) (hp : s.ProducerOk L p) :
    { s with producer := p }.Flow L :=
  { hflow with
    producer := hp
    drain := hflow.drain.frame hflow rfl rfl (List.prefix_refl _) (fun _ _ _ => rfl) }

/-- Room for one more entry, as `log` tests it. -/
theorem Flow.writes (hflow : s.Flow L) (hroom : ¬ s.head - s.tail ≥ L.capacity) :
    s.Writes L s.head := by
  rw [ge_iff_le, UInt64.le_iff_toNat_le, hflow.distance] at hroom
  have horder := hflow.order
  exact ⟨rfl, by omega⟩

/-- A write to the slot of `h` changes its entry. -/
theorem cell_writeSlot (f : LogEntry → LogEntry) :
    (s.writeSlot L h f).cell L h = f (s.cell L h) := by
  show Function.update s.ring (L.slot h) (f (s.ring (L.slot h))) (L.slot h) = _
  rw [Function.update_self, cell]

/-- Writing the slot behind the last entry. -/
theorem Flow.writeSlot (hflow : s.Flow L) (hwrites : s.Writes L h) {f : LogEntry → LogEntry}
    (hp : (s.writeSlot L h f).ProducerOk L p) :
    { s.writeSlot L h f with producer := p }.Flow L := by
  have hcells : ∀ k, s.published ≤ k → k < s.accepted.length →
      (s.writeSlot L h f).cell L (UInt64.ofNat k) = s.cell L (UInt64.ofNat k) := by
    intro k hpublished hk
    obtain ⟨rfl, -⟩ := id hwrites
    exact Function.update_of_ne (hflow.slot_ne hwrites hpublished hk) _ _
  refine { hflow with
    producer := hp
    stored := fun k r hpublished hr => ?_
    drain := hflow.drain.frame hflow rfl rfl (List.prefix_refl _) hcells }
  have hk : k < s.accepted.length := (List.getElem?_eq_some_iff.mp hr).1
  exact (congrArg LogEntry.record (hcells k hpublished hk)).trans (hflow.stored k r hpublished hr)

/-- No more entries are in the file than were accepted. -/
theorem Flow.drained_le (hflow : s.Flow L) : s.drained.length ≤ s.accepted.length := by
  have hlength := congrArg List.length hflow.drained
  rw [List.length_map, List.length_take] at hlength
  omega

/-- Publishing an entry. -/
theorem Flow.storeHead (hflow : s.Flow L) (hwrites : s.Writes L h)
    (hrecord : (s.cell L h).record = call.record now) :
    { s with
      producer := .idle, head := h + 1
      accepted := s.accepted ++ [call.record now] }.Flow L := by
  obtain ⟨rfl, hroom⟩ := id hwrites
  have horder := hflow.order
  refine {
    head := ?_, tail := hflow.tail, order := ?_, room := ?_, stored := ?_,
    producer := trivial, drain := ?_, drained := ?_, length := hflow.length }
  · rw [List.length_append, List.length_singleton, UInt64.ofNat_add, ← hflow.head]
    rfl
  · show s.published ≤ (s.accepted ++ [call.record now]).length
    rw [List.length_append]
    omega
  · show (s.accepted ++ [call.record now]).length ≤ s.published + L.capacity.toNat
    rw [List.length_append, List.length_singleton]
    omega
  · intro k r hpublished hr
    rw [List.getElem?_append] at hr
    split at hr
    · exact hflow.stored k r hpublished hr
    · obtain ⟨hk, rfl⟩ := List.getElem?_eq_some_iff.mp hr
      rw [List.length_singleton] at hk
      obtain rfl : k = s.accepted.length := by omega
      rw [← hflow.head]
      exact hrecord.trans (by simp)
  · exact hflow.drain.frame hflow rfl rfl (List.prefix_append _ _) fun _ _ _ => rfl
  · show s.drained.map LogEntry.record = (s.accepted ++ [call.record now]).take s.drained.length
    rw [List.take_append_of_le_length hflow.drained_le, hflow.drained]

/-- Counting a dropped call. -/
theorem Flow.addDropped (hflow : s.Flow L) :
    { s with producer := .idle, dropped := s.dropped + 1 }.Flow L :=
  { hflow with
    producer := trivial
    drain := hflow.drain.frame hflow rfl rfl (List.prefix_refl _) (fun _ _ _ => rfl) }

/-- Every step of `log` keeps the flow. -/
theorem Flow.produce (hflow : s.Flow L) (now : UInt64) : (s.produce L now).Flow L := by
  have hp := hflow.producer
  unfold LoggerState.produce
  cases hproducer : s.producer with
  | idle => exact hflow
  | loadMinLevel call =>
      simp only
      split <;> exact hflow.setProducer trivial
  | loadHead call => exact hflow.setProducer rfl
  | loadTail call h =>
      rw [hproducer] at hp
      obtain rfl : h = s.head := hp
      simp only
      split
      · exact hflow.setProducer trivial
      · next hroom => exact hflow.setProducer (hflow.writes hroom)
  | addDropped call => exact hflow.addDropped
  | writeTimestamp call h =>
      rw [hproducer] at hp
      exact hflow.writeSlot hp ⟨hp, by rw [cell_writeSlot]⟩
  | writeLevel call h now =>
      rw [hproducer] at hp
      obtain ⟨hwrites, htime⟩ := hp
      exact hflow.writeSlot hwrites ⟨hwrites, by rw [cell_writeSlot]; exact ⟨htime, rfl⟩⟩
  | writeTag call h now =>
      rw [hproducer] at hp
      obtain ⟨hwrites, htime, hlevel⟩ := hp
      exact hflow.writeSlot hwrites ⟨hwrites, by rw [cell_writeSlot]; exact ⟨htime, hlevel, rfl⟩⟩
  | writeMessage call h now =>
      rw [hproducer] at hp
      obtain ⟨hwrites, htime, hlevel, htag⟩ := hp
      refine hflow.writeSlot hwrites ⟨hwrites, ?_⟩
      rw [cell_writeSlot, LogEntry.record, LogCall.record, cString_copyMsg, ← cString_copyTag,
        ← htag, htime, hlevel]
  | storeHead call h now =>
      rw [hproducer] at hp
      exact hflow.storeHead hp.1 hp.2

/-! ## The drain thread -/

/-- The drain thread moves on without touching the ring. -/
theorem Flow.setDrain (hflow : s.Flow L) (hd : s.DrainOk L d)
    (hsame : unpublished d = unpublished s.drain) : { s with drain := d }.Flow L :=
  { hflow with
    producer := hflow.producer.frame rfl rfl rfl (Nat.le_refl _)
    drain := hd.frame hflow rfl rfl (List.prefix_refl _) (fun _ _ _ => rfl)
    length := by show s.drained.length = s.published + unpublished d; rw [hflow.length, hsame] }

/-- What follows once both counters are loaded. -/
theorem Flow.nextBatch (hflow : s.Flow L) {seen : Nat} (hle : s.published ≤ seen)
    (hseen : seen ≤ s.accepted.length) (final : Bool) :
    s.DrainOk L (nextBatch final (UInt64.ofNat seen) s.tail) := by
  have hroom := hflow.room
  have hcapacity := L.capacity.toNat_lt
  unfold LoggerState.nextBatch
  split
  · cases final <;> trivial
  · next hne =>
      have hcount : (UInt64.ofNat seen - s.tail).toNat = seen - s.published := by
        rw [hflow.tail, toNat_sub hle (by omega)]
      have hsome : s.published ≠ seen := fun he => hne (by rw [hflow.tail, he])
      refine ⟨⟨rfl, ?_, Nat.zero_le _, rfl⟩, ?_⟩
      · show s.published + min kBatch (UInt64.ofNat seen - s.tail).toNat ≤ s.accepted.length
        omega
      · show 0 < min kBatch (UInt64.ofNat seen - s.tail).toNat
        rw [hcount, kBatch]
        omega

/-- Reading one more entry of the batch. -/
theorem Flow.nextEntry (hflow : s.Flow L) (hreads : s.Reads b) :
    s.DrainOk L (nextEntry b (s.cell L b.position)) := by
  obtain ⟨⟨hstart, hwithin, hfits, hentries⟩, hleft⟩ := hreads
  have hk : s.published + b.entries.length < s.accepted.length := by omega
  have hrecord : (s.cell L b.position).record = s.accepted[s.published + b.entries.length] := by
    rw [hflow.position hstart]
    exact hflow.stored _ _ (by omega) (List.getElem?_eq_getElem hk)
  have hholds : s.Holds { b with entries := b.entries ++ [s.cell L b.position] } := by
    refine ⟨hstart, hwithin, ?_, ?_⟩
    · show (b.entries ++ [s.cell L b.position]).length ≤ b.count
      rw [List.length_append, List.length_singleton]
      exact hleft
    · show (b.entries ++ [s.cell L b.position]).map LogEntry.record =
        (s.accepted.drop s.published).take (b.entries ++ [s.cell L b.position]).length
      rw [List.map_append, hentries, List.map_singleton, hrecord, List.length_append,
        List.length_singleton, List.take_add_one, List.getElem?_drop, List.getElem?_eq_getElem hk,
        Option.toList_some]
  unfold LoggerState.nextEntry
  simp only
  split
  · next hmore => exact ⟨hholds, hmore⟩
  · next hfull => exact ⟨hholds, Nat.le_antisymm hholds.fits (Nat.le_of_not_lt hfull)⟩

/-- Between two batches the tail counts all that is in the file. -/
theorem unpublished_nextBatch (final : Bool) (h t : UInt64) :
    unpublished (nextBatch final h t) = 0 := by
  unfold nextBatch
  cases final <;> split <;> rfl

/-- Before a batch is written none of it is in the file. -/
theorem unpublished_nextEntry (b : Batch) (e : LogEntry) : unpublished (nextEntry b e) = 0 := by
  unfold nextEntry
  simp only
  split <;> rfl

/-- Writing a batch to the file. -/
theorem Flow.writeBatch (hflow : s.Flow L) (hholds : s.Holds b)
    (hcount : b.entries.length = b.count) (hdrain : s.drain = .writeBatch b) :
    { s with drain := .storeTail b, drained := s.drained ++ b.entries }.Flow L := by
  have hlength : s.drained.length = s.published := by rw [hflow.length, hdrain]; rfl
  refine { hflow with
    producer := hflow.producer.frame rfl rfl rfl (Nat.le_refl _)
    drain := ⟨hholds.start, hholds.within⟩
    drained := ?_
    length := ?_ }
  · show (s.drained ++ b.entries).map LogEntry.record =
      s.accepted.take (s.drained ++ b.entries).length
    rw [List.map_append, hflow.drained, hholds.entries, List.length_append, List.take_add, hlength]
  · show (s.drained ++ b.entries).length = s.published + b.count
    rw [List.length_append, hlength, hcount]

/-- Publishing the new tail. -/
theorem Flow.storeTail (hflow : s.Flow L) (hstart : b.t = s.tail)
    (hwithin : s.published + b.count ≤ s.accepted.length) (hdrain : s.drain = .storeTail b)
    (hd : ∀ s', DrainOk L s' d) (hnone : unpublished d = 0) :
    { s with
      drain := d, tail := b.t + UInt64.ofNat b.count
      published := s.published + b.count }.Flow L := by
  have hroom := hflow.room
  refine { hflow with
    tail := ?_
    order := hwithin
    room := ?_
    stored := fun k r hpublished hr => hflow.stored k r (Nat.le_of_add_right_le hpublished) hr
    producer := hflow.producer.frame rfl rfl rfl (Nat.le_add_right _ _)
    drain := hd _
    length := ?_ }
  · show b.t + UInt64.ofNat b.count = UInt64.ofNat (s.published + b.count)
    rw [hstart, hflow.tail, UInt64.ofNat_add]
  · show s.accepted.length ≤ s.published + b.count + L.capacity.toNat
    omega
  · show s.drained.length = s.published + b.count + unpublished d
    rw [hflow.length, hdrain, hnone]
    rfl

/-- Every step of the drain thread keeps the flow, when the file is open. -/
theorem Flow.drainStep (hflow : s.Flow L) (hopened : ∀ b, s.drain = .writeBatch b → s.opened) :
    (s.drainStep L).Flow L := by
  have hd := hflow.drain
  unfold LoggerState.drainStep
  cases hdrain : s.drain with
  | absent => exact hflow
  | loadRunning => exact hflow.setDrain trivial (by rw [hdrain]; rfl)
  | loadHead final =>
      exact hflow.setDrain ⟨_, hflow.head, hflow.order, Nat.le_refl _⟩ (by rw [hdrain]; rfl)
  | loadTail final h =>
      rw [hdrain] at hd
      obtain ⟨seen, rfl, hle, hseen⟩ := hd
      exact hflow.setDrain (hflow.nextBatch hle hseen final)
        (by rw [hdrain, unpublished_nextBatch]; rfl)
  | readTimestamp b =>
      rw [hdrain] at hd
      exact hflow.setDrain ⟨hd, rfl⟩ (by rw [hdrain]; rfl)
  | readLevel b timestamp =>
      rw [hdrain] at hd
      exact hflow.setDrain ⟨hd.1, hd.2, rfl⟩ (by rw [hdrain]; rfl)
  | readTag b timestamp level =>
      rw [hdrain] at hd
      exact hflow.setDrain ⟨hd.1, hd.2.1, hd.2.2, rfl⟩ (by rw [hdrain]; rfl)
  | readMessage b timestamp level tag =>
      rw [hdrain] at hd
      obtain ⟨hreads, rfl, rfl, rfl⟩ := hd
      exact hflow.setDrain (hflow.nextEntry hreads) (by rw [hdrain, unpublished_nextEntry]; rfl)
  | writeBatch b =>
      rw [hdrain] at hd
      simp only
      rw [if_pos (hopened b hdrain)]
      exact hflow.writeBatch hd.1 hd.2 hdrain
  | storeTail b =>
      rw [hdrain] at hd
      refine hflow.storeTail hd.1 hd.2 hdrain (fun s' => ?_) ?_ <;> cases b.final
      · trivial
      · trivial
      · rfl
      · rfl
  | finished => exact hflow

end ItchParser.LoggerState
