import ItchParser.Lib.Fairness
import ItchParser.Logger.Calls
import Mathlib.Data.Prod.Lex

/-!
# What the threads of the logger work towards

Ranks for the progress of the drain thread. `reach` counts the entries that are published once the
batch in progress is, and `phase` the steps until the thread looks for the next batch. Between two
batches the ranks of the two arguments differ: an entry waits for the thread to load a head behind
it, and a `stop` waits for the thread to find the ring empty.
-/

namespace ItchParser

open Machine

/-- A rank of the points of `drain_loop`, given the ranks of the two loads. -/
def Drain.phase (onHead : Bool → ℕ) (onTail : Bool → UInt64 → ℕ) : Drain → ℕ
  | .absent | .finished => 0
  | .loadRunning => 3
  | .loadHead final => onHead final
  | .loadTail final h => onTail final h
  | .storeTail _ => 6
  | .writeBatch _ => 7
  | .readMessage b _ _ _ => 4 * (b.count - b.entries.length) + 4
  | .readTag b _ _ => 4 * (b.count - b.entries.length) + 5
  | .readLevel b _ => 4 * (b.count - b.entries.length) + 6
  | .readTimestamp b => 4 * (b.count - b.entries.length) + 7

/-- The number of steps until a `log` call returns, less one. -/
def Producer.left : Producer → ℕ
  | .idle | .addDropped _ | .storeHead _ _ _ => 0
  | .writeMessage _ _ _ => 1
  | .writeTag _ _ _ => 2
  | .writeLevel _ _ _ => 3
  | .writeTimestamp _ _ => 4
  | .loadTail _ _ => 5
  | .loadHead _ => 6
  | .loadMinLevel _ => 7

namespace LoggerState

variable {L : RingLayout} {s : LoggerState} {e : LogEvent} {b : Batch}
  {onTail onTail' : Bool → UInt64 → ℕ} {h : UInt64} {final : Bool} {k : ℕ}

/-- The number of entries that are published once the batch in progress is. -/
def reach (s : LoggerState) : ℕ :=
  s.published + (s.drain.batch.map Batch.count).getD 0

/-- Outside a batch, the drain has come as far as `tail` shows. -/
theorem reach_of_batch_eq_none (hb : s.drain.batch = none) : s.reach = s.published := by
  rw [reach, hb]
  rfl

/-- The drain does not overtake the log calls. -/
theorem Flow.reach_le (hflow : s.Flow L) : s.reach ≤ s.accepted.length := by
  have hd := hflow.drain
  unfold reach
  cases hdrain : s.drain with
  | absent | loadRunning | loadHead | loadTail | finished => exact hflow.order
  | readTimestamp b =>
      rw [hdrain] at hd
      exact hd.1.within
  | readLevel b | readTag b | readMessage b =>
      rw [hdrain] at hd
      exact hd.1.1.within
  | writeBatch b =>
      rw [hdrain] at hd
      exact hd.1.within
  | storeTail b =>
      rw [hdrain] at hd
      exact hd.2

/-! ## The drain thread -/

/-- A step inside a batch. -/
theorem Flow.batch_step (hflow : s.Flow L) (hb : s.drain.batch = some b) (onHead : Bool → ℕ)
    (hhead : onHead true ≤ 5) :
    (s.drainStep L).reach = s.reach ∧
      (s.drainStep L).drain.phase onHead onTail' < s.drain.phase onHead onTail := by
  have hd := hflow.drain
  unfold LoggerState.drainStep reach
  cases hdrain : s.drain with
  | absent | loadRunning | loadHead | loadTail | finished =>
      rw [hdrain] at hb
      cases hb
  | readTimestamp b' | readLevel b' | readTag b' | writeBatch b' =>
      exact ⟨rfl, by simp [Drain.phase]⟩
  | readMessage b' timestamp level tag =>
      rw [hdrain] at hd
      have hleft := hd.1.2
      simp only [LoggerState.nextEntry]
      split
      · next hmore =>
          simp only [List.length_append, List.length_singleton] at hmore
          refine ⟨rfl, ?_⟩
          simp only [Drain.phase, List.length_append, List.length_singleton]
          omega
      · refine ⟨rfl, ?_⟩
        simp only [Drain.phase]
        omega
  | storeTail b' =>
      -- `published` takes over what the batch counted
      simp only [Drain.batch, Option.map_some, Option.getD_some]
      cases b'.final with
      | true => exact ⟨rfl, by simp only [Drain.phase, if_true]; omega⟩
      | false => exact ⟨rfl, by simp [Drain.phase]⟩

/-- The thread has loaded both counters and found entries. -/
theorem loadTail_reads (hdrain : s.drain = .loadTail final h) (hne : s.tail ≠ h) :
    s.reach < (s.drainStep L).reach ∧ (s.drainStep L).drain.batch.isSome := by
  have hpos : 0 < (h - s.tail).toNat := by
    rw [Nat.pos_iff_ne_zero, Ne, ← UInt64.toNat_zero, UInt64.toNat_inj]
    exact fun he => hne (by grind)
  unfold reach drainStep
  simp only [hdrain, nextBatch, if_neg hne]
  refine ⟨?_, rfl⟩
  show s.published + 0 < s.published + min kBatch (h - s.tail).toNat
  simp only [kBatch]
  omega

/-! ## The other threads -/

/-- Only the drain thread moves its counters. -/
theorem step_counters (he : e ≠ .drain) :
    (s.step L e).published = s.published ∧ (s.step L e).tail = s.tail := by
  cases hproduces : e.produces with
  | false =>
      obtain ⟨-, htail, -, -, -, hpublished⟩ := step_data (L := L) (s := s) hproduces he
      exact ⟨hpublished, htail⟩
  | true =>
      cases e with
      | produce now =>
          show (s.produce L now).published = _ ∧ (s.produce L now).tail = _
          unfold LoggerState.produce
          cases s.producer <;> exact ⟨rfl, rfl⟩
      | log | drain | start | stop | own | setMinLevel => cases hproduces

/-- While the drain thread is in its loops, only its own steps move it. -/
theorem Life.step_drain (hlife : s.Life) (hpresent : s.drain.present = true)
    (hrest : s.drain ≠ .finished) (he : e ≠ .drain) : (s.step L e).drain = s.drain := by
  cases e with
  | drain => exact absurd rfl he
  | setMinLevel level => rfl
  | log call =>
      unfold LoggerState.step
      cases s.producer <;> rfl
  | start | stop =>
      unfold LoggerState.step
      cases s.owner <;> rfl
  | produce now => exact (produce_frame (L := L) (s := s) now).2.2.2
  | own opens =>
      show (s.ownerStep opens).drain = _
      unfold LoggerState.ownerStep
      cases howner : s.owner with
      | spawn =>
          -- a thread is spawned only when there is none
          rw [(hlife.spawning howner).2] at hpresent
          cases hpresent
      | join =>
          cases hdrain : s.drain with
          | finished => exact absurd hdrain hrest
          | _ => exact hdrain
      | _ => rfl

/-- No step takes an accepted entry back. -/
theorem accepted_step (L : RingLayout) (s : LoggerState) (e : LogEvent) :
    s.accepted <+: (s.step L e).accepted := by
  cases e with
  | produce now =>
      show s.accepted <+: (s.produce L now).accepted
      unfold LoggerState.produce
      cases s.producer with
      | storeHead call h now' => exact List.prefix_append _ _
      | _ => exact List.prefix_refl _
  | drain =>
      show s.accepted <+: (s.drainStep L).accepted
      rw [drainStep_accepted]
  | log | start | stop | own | setMinLevel =>
      rw [(step_data rfl (by nofun)).2.2.2.1]

/-- While the owner is in a call, only its own steps move it. -/
theorem step_owner (howner : s.owner ≠ .idle) (he : e.owns = false) :
    (s.step L e).owner = s.owner := by
  cases e with
  | own opens => cases he
  | setMinLevel level => rfl
  | drain => exact (drainStep_frame (L := L) (s := s)).1
  | produce now => exact (produce_frame (L := L) (s := s) now).1
  | log call =>
      unfold LoggerState.step
      cases s.producer <;> rfl
  | start | stop =>
      unfold LoggerState.step
      cases h : s.owner with
      | idle => exact absurd h howner
      | _ => exact h

/-- When the drain thread has ended, only a step of the owner takes notice. -/
theorem step_finished (hend : s.drain = .finished) (he : e.owns = false) :
    (s.step L e).drain = .finished := by
  cases e with
  | own opens => cases he
  | setMinLevel level => exact hend
  | drain =>
      show (s.drainStep L).drain = .finished
      unfold LoggerState.drainStep
      simp only [hend]
  | produce now => exact (produce_frame (L := L) (s := s) now).2.2.2.trans hend
  | log call =>
      unfold LoggerState.step
      cases s.producer <;> exact hend
  | start | stop =>
      unfold LoggerState.step
      cases s.owner <;> exact hend

/-- While the producer is in a call, only its own steps move it. -/
theorem step_producer (hbusy : s.producerIdle = false) (he : e.produces = false) :
    (s.step L e).producer = s.producer := by
  cases hlogs : e.logs with
  | false => exact step_same_producer he hlogs
  | true =>
      cases e with
      | log call =>
          unfold producerIdle at hbusy
          unfold LoggerState.step
          cases h : s.producer with
          | idle =>
              rw [h] at hbusy
              cases hbusy
          | _ => exact h
      | produce | drain | start | stop | own | setMinLevel => cases hlogs

end LoggerState
end ItchParser
