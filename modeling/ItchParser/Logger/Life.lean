import ItchParser.Logger.Steps

/-!
# Starting and stopping the drain thread

`Life` ties the drain thread to the owner: the thread only leaves its first loop, and only ends,
while the owner waits in `stop`. Together with the flow of the entries this is the invariant of the
whole logger, `Sound`, which every event keeps.
-/

namespace ItchParser

open Machine

/-- The event that begins a `log` call. -/
def LogEvent.logs : LogEvent → Bool
  | .log _ => true
  | _ => false

/-- A step of the producer. -/
def LogEvent.produces : LogEvent → Bool
  | .produce _ => true
  | _ => false

/-- A step of the owner. -/
def LogEvent.owns : LogEvent → Bool
  | .own _ => true
  | _ => false

/-- The thread has been spawned and not joined. -/
def Drain.present : Drain → Bool
  | .absent => false
  | _ => true

/-- The batch in the drain thread's hands. -/
def Drain.batch : Drain → Option Batch
  | .readTimestamp b | .readLevel b _ | .readTag b _ _ | .readMessage b _ _ _ | .writeBatch b
  | .storeTail b => some b
  | .absent | .loadRunning | .loadHead _ | .loadTail _ _ | .finished => none

/-- The thread is behind its first loop. -/
def Drain.final : Drain → Bool
  | .absent | .loadRunning => false
  | .loadHead final | .loadTail final _ => final
  | .readTimestamp b | .readLevel b _ | .readTag b _ _ | .readMessage b _ _ _ | .writeBatch b
  | .storeTail b => b.final
  | .finished => true

namespace LoggerState

variable {L : RingLayout} {s s' : LoggerState} {e : LogEvent} {h : UInt64}

/-- How far the owner and the drain thread can be apart. -/
structure Life (s : LoggerState) : Prop where
  final : s.drain.final = true → s.owner = .join
  told : s.drain.present = true → s.running = false → s.owner = .join
  joining : s.owner = .join → s.running = false ∧ s.drain.present = true
  spawned : s.running = true → s.drain.present = false → s.owner = .spawn
  between : s.owner = .openFile ∨ s.owner = .storeRunning ∨ s.owner = .closeFile →
    s.running = false ∧ s.drain.present = false
  spawning : s.owner = .spawn → s.running = true ∧ s.drain.present = false
  opened : s.drain.present = true ∨ s.owner = .storeRunning ∨ s.owner = .spawn → s.opened = true

/-- The invariant of the whole logger. -/
structure Sound (L : RingLayout) (s : LoggerState) : Prop where
  flow : s.Flow L
  life : s.Life

/-- A new logger is sound. -/
theorem create_sound (L : RingLayout) : create.Sound L :=
  ⟨create_flow L, by constructor <;> simp [create, Drain.present, Drain.final]⟩

/-! ## The drain thread -/

/-- Only the final drain goes on finally. -/
theorem nextBatch_final {final : Bool} {t : UInt64}
    (hfinal : (nextBatch final h t).final = true) : final = true := by
  unfold nextBatch at hfinal
  cases final with
  | true => rfl
  | false =>
      split at hfinal
      · exact hfinal
      · exact hfinal

/-- The entries of a batch belong to one drain. -/
theorem nextEntry_final {b : Batch} {e : LogEntry} : (nextEntry b e).final = b.final := by
  unfold nextEntry
  simp only
  split <;> rfl

/-- Between two batches the thread is running. -/
theorem nextBatch_present (final : Bool) (h t : UInt64) :
    (nextBatch final h t).present = true := by
  unfold nextBatch
  cases final <;> split <;> rfl

/-- Within a batch the thread is running. -/
theorem nextEntry_present (b : Batch) (e : LogEntry) : (nextEntry b e).present = true := by
  unfold nextEntry
  simp only
  split <;> rfl

/-- The thread moves on to its second loop when it reads that `running_` is false. -/
theorem drainStep_final (hfinal : (s.drainStep L).drain.final = true) :
    s.drain.final = true ∨ s.drain.present = true ∧ s.running = false := by
  unfold drainStep at hfinal
  cases hdrain : s.drain with
  | loadRunning =>
      rw [hdrain] at hfinal
      exact .inr ⟨rfl, by simpa [Drain.final] using hfinal⟩
  | loadTail final h =>
      rw [hdrain] at hfinal
      exact .inl (nextBatch_final hfinal)
  | readMessage b timestamp level tag =>
      rw [hdrain] at hfinal
      exact .inl (nextEntry_final.symm.trans hfinal)
  | storeTail b =>
      rw [hdrain] at hfinal
      refine .inl ?_
      cases hb : b.final with
      | true => exact hb
      | false => simp [hb, Drain.final] at hfinal
  | absent | loadHead | readTimestamp | readLevel | readTag | writeBatch | finished =>
      simp only [hdrain] at hfinal
      exact .inl hfinal

/-- A step of the thread neither starts nor joins it. -/
theorem drainStep_present : (s.drainStep L).drain.present = s.drain.present := by
  unfold drainStep
  cases hdrain : s.drain with
  | absent | finished => exact congrArg Drain.present hdrain
  | loadTail final h => exact nextBatch_present _ _ _
  | readMessage b timestamp level tag => exact nextEntry_present _ _
  | storeTail b =>
      show (if b.final = true then Drain.loadHead true else .loadRunning).present = true
      split <;> rfl
  | loadRunning | loadHead | readTimestamp | readLevel | readTag | writeBatch => rfl

/-- The thread does not touch what belongs to the owner and the producer. -/
theorem drainStep_frame : (s.drainStep L).owner = s.owner ∧ (s.drainStep L).running = s.running ∧
    (s.drainStep L).opened = s.opened ∧ (s.drainStep L).producer = s.producer ∧
    (s.drainStep L).head = s.head ∧ (s.drainStep L).dropped = s.dropped := by
  unfold drainStep
  cases s.drain <;> exact ⟨rfl, rfl, rfl, rfl, rfl, rfl⟩

/-- The drain thread accepts nothing. -/
theorem drainStep_accepted : (s.drainStep L).accepted = s.accepted := by
  unfold drainStep
  cases s.drain <;> rfl

/-- A step of the drain thread keeps the order of start and stop. -/
theorem Life.drainStep (hlife : s.Life) : (s.drainStep L).Life := by
  obtain ⟨howner, hrunning, hopened, -, -, -⟩ := drainStep_frame (L := L) (s := s)
  have hpresent : (s.drainStep L).drain.present = s.drain.present := drainStep_present
  refine ⟨fun hfinal => ?_, ?_, ?_, ?_, ?_, ?_, ?_⟩
  · rw [howner]
    rcases drainStep_final hfinal with hbefore | ⟨hthread, htold⟩
    · exact hlife.final hbefore
    · exact hlife.told hthread htold
  · rw [hpresent, hrunning, howner]
    exact hlife.told
  · rw [hpresent, hrunning, howner]
    exact hlife.joining
  · rw [hpresent, hrunning, howner]
    exact hlife.spawned
  · rw [hpresent, hrunning, howner]
    exact hlife.between
  · rw [hpresent, hrunning, howner]
    exact hlife.spawning
  · rw [hpresent, hopened, howner]
    exact hlife.opened

/-- Another batch or the end of the drain does not start with a load of `tail`. -/
theorem nextBatch_ne_loadTail (final final' : Bool) (h h' t : UInt64) :
    nextBatch final h t ≠ .loadTail final' h' := by
  unfold nextBatch
  cases final <;> split <;> simp

/-- Behind an entry come the next one or the write. -/
theorem nextEntry_ne (b : Batch) (e : LogEntry) (d : Drain)
    (hd : (∃ final h, d = .loadTail final h) ∨ d = .finished) : nextEntry b e ≠ d := by
  unfold nextEntry
  simp only
  rcases hd with ⟨final, h, rfl⟩ | rfl <;> split <;> simp

/-- The thread is about to load the tail exactly when it has just loaded the head. -/
theorem drainStep_loadTail {final : Bool}
    (hdrain : (s.drainStep L).drain = .loadTail final h) : h = s.head := by
  unfold drainStep at hdrain
  cases hbefore : s.drain with
  | absent | finished =>
      simp only [hbefore] at hdrain
      cases hdrain
  | loadTail final' h' =>
      rw [hbefore] at hdrain
      exact absurd hdrain (nextBatch_ne_loadTail _ _ _ _ _)
  | readMessage b timestamp level tag =>
      rw [hbefore] at hdrain
      exact absurd hdrain (nextEntry_ne _ _ _ (.inl ⟨_, _, rfl⟩))
  | storeTail b =>
      simp only [hbefore] at hdrain
      split at hdrain <;> cases hdrain
  | loadHead =>
      simp only [hbefore] at hdrain
      cases hdrain
      rfl
  | loadRunning | readTimestamp | readLevel | readTag | writeBatch =>
      simp only [hbefore] at hdrain
      cases hdrain

/-- The final drain ends where `head` was. -/
theorem nextBatch_finished {final : Bool} {t : UInt64}
    (hend : nextBatch final h t = .finished) : final = true ∧ t = h := by
  unfold nextBatch at hend
  split at hend
  · next heq =>
      cases final with
      | true => exact ⟨rfl, heq⟩
      | false => cases hend
  · cases hend

/-- The thread has loaded both counters and found nothing. -/
theorem loadTail_empty {final : Bool} (hdrain : s.drain = .loadTail final s.tail) :
    s.drainStep L = { s with drain := if final then .finished else .loadRunning } := by
  unfold drainStep
  rw [hdrain]
  simp only [nextBatch, if_true]

/-- The thread ends when the head it loaded is the tail. -/
theorem drainStep_finished (hdrain : (s.drainStep L).drain = .finished) :
    s.drain = .finished ∨ s.drain = .loadTail true s.tail := by
  unfold drainStep at hdrain
  cases hbefore : s.drain with
  | finished => exact .inl rfl
  | loadTail final h =>
      rw [hbefore] at hdrain
      obtain ⟨rfl, rfl⟩ := nextBatch_finished hdrain
      exact .inr rfl
  | readMessage b timestamp level tag =>
      rw [hbefore] at hdrain
      exact absurd hdrain (nextEntry_ne _ _ _ (.inr rfl))
  | storeTail b =>
      simp only [hbefore] at hdrain
      split at hdrain <;> cases hdrain
  | absent | loadRunning | loadHead | readTimestamp | readLevel | readTag | writeBatch =>
      simp only [hbefore] at hdrain
      cases hdrain

/-- Publishing a tail is not the thread's last step. -/
theorem drainStep_tail (hdrain : (s.drainStep L).drain = .finished ∨ s.drain.present = false) :
    (s.drainStep L).tail = s.tail := by
  unfold drainStep at hdrain ⊢
  cases hbefore : s.drain with
  | storeTail b =>
      rw [hbefore] at hdrain
      rcases hdrain with hend | habsent
      · simp only at hend
        split at hend <;> cases hend
      · cases habsent
  | absent | loadRunning | loadHead | loadTail | readTimestamp | readLevel | readTag | readMessage
  | writeBatch | finished => rfl

/-! ## The owner -/

/-- Every step of the owner, point by point; what is left to check is propositional. -/
theorem Life.ownerStep (hlife : s.Life) (opens : Bool) : (s.ownerStep opens).Life := by
  obtain ⟨hfinal, htold, hjoining, hspawned, hbetween, hspawning, hopened⟩ := id hlife
  unfold LoggerState.ownerStep
  cases howner : s.owner with
  | idle => exact hlife
  | loadRunning | exchangeRunning =>
      cases hrunning : s.running <;> constructor <;> simp_all
  | openFile => cases opens <;> constructor <;> simp_all
  | storeRunning | closeFile => constructor <;> simp_all
  | spawn => constructor <;> simp_all [Drain.present, Drain.final]
  | join =>
      cases hdrain : s.drain with
      | finished => constructor <;> simp_all [Drain.present, Drain.final]
      | absent | loadRunning | loadHead | loadTail | readTimestamp | readLevel | readTag
      | readMessage | writeBatch | storeTail => exact hlife

/-- A call that begins finds the owner at rest, and takes it to a point where nothing is due. -/
theorem Life.begins {owner : Owner} (hlife : s.Life) (hidle : s.owner = .idle)
    (howner : owner = .loadRunning ∨ owner = .exchangeRunning) :
    { s with owner := owner }.Life := by
  obtain ⟨hfinal, htold, hjoining, hspawned, hbetween, hspawning, hopened⟩ := hlife
  rcases howner with rfl | rfl <;> constructor <;> simp_all

/-! ## All threads -/

/-- The order of start and stop depends on four fields. -/
theorem Life.frame (hlife : s.Life) (howner : s'.owner = s.owner)
    (hrunning : s'.running = s.running) (hopened : s'.opened = s.opened) (hdrain : s'.drain = s.drain) : s'.Life := by
  obtain ⟨hfinal, htold, hjoining, hspawned, hbetween, hspawning, hopen⟩ := hlife
  constructor <;> simpa only [howner, hrunning, hopened, hdrain]

/-- The other threads see nothing of a step of the producer, except the entry it publishes. -/
theorem produce_frame (now : UInt64) : (s.produce L now).owner = s.owner ∧
    (s.produce L now).running = s.running ∧ (s.produce L now).opened = s.opened ∧
    (s.produce L now).drain = s.drain := by
  unfold LoggerState.produce
  cases s.producer <;> exact ⟨rfl, rfl, rfl, rfl⟩

/-- The owner only touches what it shares with the drain thread. -/
theorem ownerStep_frame (opens : Bool) : (s.ownerStep opens).producer = s.producer ∧
    (s.ownerStep opens).head = s.head ∧ (s.ownerStep opens).tail = s.tail ∧
    (s.ownerStep opens).dropped = s.dropped ∧ (s.ownerStep opens).accepted = s.accepted ∧
    (s.ownerStep opens).drained = s.drained ∧ (s.ownerStep opens).published = s.published := by
  unfold LoggerState.ownerStep
  cases s.owner with
  | join => cases s.drain <;> exact ⟨rfl, rfl, rfl, rfl, rfl, rfl, rfl⟩
  | _ => exact ⟨rfl, rfl, rfl, rfl, rfl, rfl, rfl⟩

/-- The counters and the entries are moved by the producer and the drain thread only. -/
theorem step_data (he : e.produces = false) (hdrain : e ≠ .drain) :
    (s.step L e).head = s.head ∧ (s.step L e).tail = s.tail ∧
    (s.step L e).dropped = s.dropped ∧ (s.step L e).accepted = s.accepted ∧
    (s.step L e).drained = s.drained ∧ (s.step L e).published = s.published := by
  cases e with
  | produce now => cases he
  | drain => exact absurd rfl hdrain
  | own opens => exact (ownerStep_frame opens).2
  | setMinLevel level => exact ⟨rfl, rfl, rfl, rfl, rfl, rfl⟩
  | log call =>
      unfold LoggerState.step
      cases s.producer <;> exact ⟨rfl, rfl, rfl, rfl, rfl, rfl⟩
  | start | stop =>
      unfold LoggerState.step
      cases s.owner <;> exact ⟨rfl, rfl, rfl, rfl, rfl, rfl⟩

/-- The producer is moved by its own steps and by the calls it begins. -/
theorem step_same_producer (he : e.produces = false) (hlogs : e.logs = false) :
    (s.step L e).producer = s.producer := by
  cases e with
  | produce now => cases he
  | log call => cases hlogs
  | drain => exact (drainStep_frame (L := L)).2.2.2.1
  | own opens => exact (ownerStep_frame opens).1
  | setMinLevel level => rfl
  | start | stop =>
      unfold LoggerState.step
      cases s.owner <;> rfl

/-- The flow does not depend on what the owner keeps. -/
theorem Flow.control {d : Drain} (hflow : s.Flow L) (hd : s.DrainOk L d)
    (hsame : unpublished d = unpublished s.drain) (owner : Owner) (running opened : Bool)
    (minLevel : UInt8) :
    { s with
      drain := d, owner := owner, running := running, opened := opened
      minLevel := minLevel }.Flow L :=
  { hflow.setDrain hd hsame with
    producer := hflow.producer.frame rfl rfl rfl (Nat.le_refl _)
    drain := hd.frame hflow rfl rfl (List.prefix_refl _) (fun _ _ _ => rfl) }

/-- Without a thread the tail counts all that is in the file. -/
theorem unpublished_absent {d : Drain} (hd : d.present = false) : unpublished d = 0 := by
  cases d with
  | absent => rfl
  | _ => cases hd

/-- The owner does not touch the ring. -/
theorem Flow.ownerStep (hflow : s.Flow L) (hlife : s.Life) (opens : Bool) :
    (s.ownerStep opens).Flow L := by
  unfold LoggerState.ownerStep
  cases howner : s.owner with
  | idle => exact hflow
  | loadRunning | openFile | storeRunning | exchangeRunning | closeFile =>
      exact hflow.control hflow.drain rfl _ _ _ _
  | spawn =>
      have habsent := unpublished_absent (hlife.spawning howner).2
      exact hflow.control (d := .loadRunning) trivial habsent.symm _ _ _ _
  | join =>
      cases hdrain : s.drain with
      | finished => exact hflow.control (d := .absent) trivial (by rw [hdrain]; rfl) _ _ _ _
      | absent | loadRunning | loadHead | loadTail | readTimestamp | readLevel | readTag
      | readMessage | writeBatch | storeTail => exact hflow

/-- A step of the drain thread keeps the logger sound. -/
theorem Sound.drainStep (hs : s.Sound L) : (s.drainStep L).Sound L :=
  ⟨hs.flow.drainStep fun b hdrain => hs.life.opened (.inl (by rw [hdrain]; rfl)),
    hs.life.drainStep⟩

/-- Every event keeps the invariant. -/
theorem Sound.step (hs : s.Sound L) (e : LogEvent) : (s.step L e).Sound L := by
  cases e with
  | produce now =>
      obtain ⟨howner, hrunning, hopened, hdrain⟩ := produce_frame (L := L) (s := s) now
      exact ⟨hs.flow.produce now, hs.life.frame howner hrunning hopened hdrain⟩
  | drain => exact hs.drainStep
  | own opens => exact ⟨hs.flow.ownerStep hs.life opens, hs.life.ownerStep opens⟩
  | log call =>
      unfold LoggerState.step
      cases s.producer with
      | idle => exact ⟨hs.flow.setProducer trivial, hs.life.frame rfl rfl rfl rfl⟩
      | _ => exact hs
  | start =>
      unfold LoggerState.step
      cases howner : s.owner with
      | idle => exact ⟨hs.flow.control hs.flow.drain rfl _ _ _ _, hs.life.begins howner (.inl rfl)⟩
      | _ => exact hs
  | stop =>
      unfold LoggerState.step
      cases howner : s.owner with
      | idle => exact ⟨hs.flow.control hs.flow.drain rfl _ _ _ _, hs.life.begins howner (.inr rfl)⟩
      | _ => exact hs
  | setMinLevel level =>
      exact ⟨hs.flow.control hs.flow.drain rfl _ _ _ _, hs.life.frame rfl rfl rfl rfl⟩

/-- A sound logger stays sound. -/
theorem Sound.run (hs : s.Sound L) (events : List LogEvent) :
    (run (LoggerState.step L) s events).Sound L :=
  run_invariant (I := fun s : LoggerState => s.Sound L) hs (fun _ e h => h.step e) events

end LoggerState
end ItchParser
