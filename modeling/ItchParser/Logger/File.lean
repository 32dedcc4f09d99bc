import ItchParser.Logger.Life
import ItchParser.Logger.Output

/-!
# The log file

`LogFile` runs the logger and keeps what the runs of the ring do not show: the calls behind the
accepted entries, the array `scratch`, and the bytes written to the file. The array belongs to the
drain thread, so nobody can tell that the model formats a batch when the last of its entries has
been read, and not each entry as it is read.
-/

namespace ItchParser

open Printf Machine

/-- What a call of `write` returns: a number of bytes, or -1 with `EINTR` or another error. -/
inductive WriteResult where
  | wrote (n : Nat)
  | interrupted
  | failed
  deriving DecidableEq

/-- The loop of `write_batch`, with `data` left to write and `written` in the file. When the results
are used up, one more call takes all that is left. -/
def writeLoop : List WriteResult → List UInt8 → List UInt8 → List UInt8
  | [], data, written => written ++ data
  | .wrote n :: results, data, written =>
      if data = [] then written else writeLoop results (data.drop n) (written ++ data.take n)
  | .interrupted :: results, data, written =>
      if data = [] then written else writeLoop results data written
  | .failed :: _, _, written => written

/-- The logger with its scratch buffer and what has reached the file. -/
structure LogFile where
  logger : LoggerState
  /-- The accepted calls with their timestamps. -/
  calls : List (LogCall × UInt64)
  scratch : Buffer
  /-- All bytes written since the logger was created, also before the file was truncated by a later
  `start`. -/
  written : List UInt8

/-- An event of the logger, and the results of the calls of `write` that it makes. -/
abbrev FileEvent := LogEvent × List WriteResult

namespace LogFile

/-- A new logger that has written nothing. -/
def create : LogFile :=
  ⟨LoggerState.create, [], ⟨fun _ => 0, []⟩, []⟩

/-- Formats a batch and writes it, if a file is open. -/
def writeBatch (f : LogFile) (results : List WriteResult) (entries : List LogEntry) : LogFile :=
  let scratch := formatBatch f.scratch entries
  { f with
    scratch := scratch.buffer
    written :=
      if scratch.out = 0 ∨ f.logger.opened = false then f.written
      else writeLoop results (scratch.buffer.front scratch.out) f.written }

/-- What an event does besides its step of the logger. -/
def observe (f : LogFile) : FileEvent → LogFile
  | (.produce _, _) =>
      match f.logger.producer with
      | .storeHead call _ now => { f with calls := f.calls ++ [(call, now)] }
      | _ => f
  | (.drain, results) =>
      match f.logger.drain with
      | .writeBatch b => f.writeBatch results b.entries
      | _ => f
  | (.own _, _) =>
      match f.logger.owner with
      | .spawn => { f with scratch := { f.scratch with bytes := fun _ => 0 } }
      | _ => f
  | _ => f

/-- The event is observed first, and then the logger takes its step. -/
def step (L : RingLayout) (f : LogFile) (e : FileEvent) : LogFile :=
  { f.observe e with logger := f.logger.step L e.1 }

/-- The logger with its file after the events of one interleaving. -/
abbrev after (L : RingLayout) (events : List FileEvent) : LogFile :=
  run (step L) create events

/-- No call of `write` fails. -/
def Succeeds (_f : LogFile) (e : FileEvent) : Prop :=
  .failed ∉ e.2

instance (f : LogFile) (e : FileEvent) : Decidable (f.Succeeds e) :=
  inferInstanceAs (Decidable (_ ∉ _))

end LogFile

/-- However `write` cuts it up, the data is written when no call fails. -/
theorem writeLoop_eq {results : List WriteResult} (hresults : .failed ∉ results)
    (data written : List UInt8) : writeLoop results data written = written ++ data := by
  induction results generalizing data written with
  | nil => rfl
  | cons result results ih =>
      rw [List.mem_cons, not_or] at hresults
      cases result with
      | wrote n =>
          rw [writeLoop]
          split
          · next hdata => rw [hdata, List.append_nil]
          · rw [ih hresults.2, List.append_assoc, List.take_append_drop]
      | interrupted =>
          rw [writeLoop]
          split
          · next hdata => rw [hdata, List.append_nil]
          · exact ih hresults.2 _ _
      | failed => exact absurd rfl hresults.1

/-! ## The size of a batch -/

/-- A batch never has more than `kBatch` entries. -/
def Drain.Limited (d : Drain) : Prop :=
  ∀ b, d.batch = some b → b.count ≤ kBatch

namespace LoggerState

variable {L : RingLayout} {s : LoggerState}

/-- A new batch is no larger than the limit. -/
theorem limited_nextBatch (final : Bool) (h t : UInt64) : (nextBatch final h t).Limited := by
  unfold nextBatch
  split
  · split <;> exact fun b hb => by cases hb
  · intro b hb
    cases hb
    exact Nat.min_le_left _ _

/-- The next entry of a batch within the limit. -/
theorem limited_nextEntry {b : Batch} (hb : b.count ≤ kBatch) (e : LogEntry) :
    (nextEntry b e).Limited := by
  unfold nextEntry
  simp only
  split <;>
  · intro b' hb'
    cases hb'
    exact hb

/-- The drain thread takes a batch of limited size and keeps it until the tail is stored. -/
theorem limited_drainStep (h : s.drain.Limited) : (s.drainStep L).drain.Limited := by
  unfold drainStep
  cases hdrain : s.drain with
  | absent | finished => rwa [hdrain] at h ⊢
  | loadRunning | loadHead => exact fun b hb => by cases hb
  | loadTail final h' => exact limited_nextBatch _ _ _
  | readTimestamp b | readLevel b | readTag b | writeBatch b =>
      intro b' hb'
      cases hb'
      exact h b (by rw [hdrain]; rfl)
  | readMessage b timestamp level tag => exact limited_nextEntry (h b (by rw [hdrain]; rfl)) _
  | storeTail b =>
      intro b' hb'
      simp only at hb'
      split at hb' <;> cases hb'

/-- The other threads leave the batch alone, or there is none. -/
theorem limited_step (h : s.drain.Limited) (e : LogEvent) : (s.step L e).drain.Limited := by
  cases e with
  | drain => exact limited_drainStep h
  | produce now =>
      have hsame : (s.produce L now).drain = s.drain := by
        unfold produce
        cases s.producer <;> rfl
      show (s.produce L now).drain.Limited
      rwa [hsame]
  | own opens =>
      show (s.ownerStep opens).drain.Limited
      unfold ownerStep
      cases s.owner with
      | spawn => exact fun b hb => by cases hb
      | join =>
          cases hdrain : s.drain with
          | finished => exact fun b hb => by cases hb
          | _ => rwa [hdrain] at h ⊢
      | _ => exact h
  | log call =>
      unfold LoggerState.step
      cases s.producer <;> exact h
  | start =>
      unfold LoggerState.step
      cases s.owner <;> exact h
  | stop =>
      unfold LoggerState.step
      cases s.owner <;> exact h
  | setMinLevel level => exact h

end LoggerState
end ItchParser
