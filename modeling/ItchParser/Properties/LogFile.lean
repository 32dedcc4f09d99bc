import ItchParser.Logger.File
import ItchParser.Properties.LoggerRing
import Mathlib.Data.List.TakeWhile

/-!
# One line for each accepted entry

When `stop` has returned, the file has for each accepted call what `snprintf` made of its line. This
is the line itself, unless the line does not fit into the 256 bytes of an entry: then the file gets
255 bytes of it and a NUL, and no newline. The message may have 239 bytes and what is in front of it
36, so a long message is enough.
-/

namespace ItchParser

open Printf Machine

/-- The line that the file should have for a call. -/
def LogCall.line (call : LogCall) (now : UInt64) : List UInt8 :=
  decimal 20 now.toNat ++ chars [' '] ++ call.level.toStr ++ chars [' ', '['] ++
    call.tag.take 6 ++ chars [']', ' '] ++ call.msg.take 239 ++ chars ['\n']

/-- The strings of a call have neither NUL nor newline. -/
structure LogCall.Clean (call : LogCall) : Prop where
  tag : ∀ c ∈ call.tag, c ≠ 0 ∧ c ≠ 10
  msg : ∀ c ∈ call.msg, c ≠ 0 ∧ c ≠ 10

/-- The stored strings are short enough for the line to fit into `sizeof(LogEntry)` bytes. -/
def LogCall.Fits (call : LogCall) : Prop :=
  min 6 call.tag.length + min 239 call.msg.length < 225

instance (call : LogCall) : Decidable call.Clean :=
  have (bytes : List UInt8) : Decidable (∀ c ∈ bytes, c ≠ 0 ∧ c ≠ 10) := List.decidableBAll _ _
  decidable_of_iff ((∀ c ∈ call.tag, c ≠ 0 ∧ c ≠ 10) ∧ ∀ c ∈ call.msg, c ≠ 0 ∧ c ≠ 10)
    ⟨fun h => ⟨h.1, h.2⟩, fun h => ⟨h.tag, h.msg⟩⟩

instance (call : LogCall) : Decidable call.Fits :=
  inferInstanceAs (Decidable (_ < _))

variable {call : LogCall} {now : UInt64}

/-! ## The line of a clean call -/

/-- Without a NUL the text is whole. -/
theorem cString_eq_self {bytes : List UInt8} (h : ∀ c ∈ bytes, c ≠ 0) : cString bytes = bytes :=
  List.takeWhile_eq_self_iff.mpr fun c hc => by simpa using h c hc

/-- The record of clean texts cuts them only. -/
theorem LogCall.Clean.record_eq (h : call.Clean) (now : UInt64) :
    call.record now = ⟨now, call.level, call.tag.take 6, call.msg.take 239⟩ := by
  rw [LogCall.record, cString_eq_self fun c hc => (h.tag c (List.mem_of_mem_take hc)).1,
    cString_eq_self fun c hc => (h.msg c (List.mem_of_mem_take hc)).1]

/-- The line of a clean call is the one that it should have. -/
theorem LogCall.Clean.line_eq (h : call.Clean) (now : UInt64) :
    (call.record now).line = call.line now := by
  rw [h.record_eq, LogRecord.line, LogCall.line]
  simp only [List.take_take, Nat.min_self]
  rfl

/-- A clean call fits exactly when its line is printed. -/
theorem LogCall.Clean.printed_eq (h : call.Clean) (hfits : call.Fits) :
    (call.record now).printed = call.line now := by
  have hlength := length_line (call.record now)
  rw [h.record_eq] at hlength
  simp only [List.length_take] at hlength
  rw [LogRecord.printed, if_pos, h.line_eq]
  rw [h.record_eq, hlength, LogEntry.size]
  unfold Fits at hfits
  omega

/-- A line that does not fit leaves its NUL in the file. -/
theorem LogCall.Clean.nul_mem_printed (h : call.Clean) (hfits : ¬ call.Fits) :
    0 ∈ (call.record now).printed := by
  have hlength := length_line (call.record now)
  rw [h.record_eq] at hlength
  simp only [List.length_take] at hlength
  rw [LogRecord.printed, if_neg]
  · simp
  · rw [h.record_eq, hlength, LogEntry.size]
    unfold Fits at hfits
    omega

/-- A part of a clean text is clean. -/
theorem count_eq_zero_of_clean {bytes : List UInt8} {n : Nat}
    (h : ∀ c ∈ bytes, c ≠ 0 ∧ c ≠ 10) : (bytes.take n).count 10 = 0 ∧ 0 ∉ bytes.take n :=
  ⟨List.count_eq_zero.mpr fun hc => (h 10 (List.mem_of_mem_take hc)).2 rfl,
    fun hc => (h 0 (List.mem_of_mem_take hc)).1 rfl⟩

/-- Digits are clean. -/
theorem decimal_clean (width n : Nat) : ∀ c ∈ decimal width n, c ≠ 0 ∧ c ≠ 10 := by
  intro c hc
  obtain ⟨hlow, -⟩ := mem_decimal hc
  refine ⟨?_, ?_⟩
  · rintro rfl
    exact absurd hlow (by decide)
  · rintro rfl
    exact absurd hlow (by decide)

/-- The line of a clean call has one newline and no NUL. -/
theorem LogCall.Clean.line_ok (h : call.Clean) (now : UInt64) :
    (call.line now).count 10 = 1 ∧ 0 ∉ call.line now := by
  have hstamp := decimal_clean 20 now.toNat
  have hcount : (decimal 20 now.toNat).count 10 = 0 :=
    List.count_eq_zero.mpr fun hc => (hstamp 10 hc).2 rfl
  have hnul : 0 ∉ decimal 20 now.toNat := fun hc => (hstamp 0 hc).1 rfl
  have hlevel : call.level.toStr.count 10 = 0 ∧ 0 ∉ call.level.toStr := by
    cases call.level <;> decide
  have htag := count_eq_zero_of_clean (n := 6) h.tag
  have hmsg := count_eq_zero_of_clean (n := 239) h.msg
  have hspace : (chars [' ']).count 10 = 0 ∧ 0 ∉ chars [' '] := by decide
  have hopen : (chars [' ', '[']).count 10 = 0 ∧ 0 ∉ chars [' ', '['] := by decide
  have hclose : (chars [']', ' ']).count 10 = 0 ∧ 0 ∉ chars [']', ' '] := by decide
  have hend : (chars ['\n']).count 10 = 1 ∧ 0 ∉ chars ['\n'] := by decide
  constructor
  · simp only [LogCall.line, List.count_append, hcount, hlevel.1, htag.1, hmsg.1, hspace.1, hopen.1,
      hclose.1, hend.1]
  · simp only [LogCall.line, List.mem_append, hnul, hlevel.2, htag.2, hmsg.2, hspace.2, hopen.2,
      hclose.2, hend.2, or_self, not_false_eq_true]

namespace LogFile

variable {L : RingLayout} {f : LogFile} {e : FileEvent}

/-- The file has exactly one line for each accepted call, in order, and formatting stays inside
`scratch`. -/
structure WellFormed (f : LogFile) : Prop where
  lines : f.written = f.calls.flatMap fun c => c.1.line c.2
  noNul : 0 ∉ f.written
  newlines : f.written.count 10 = f.calls.length
  inside : ∀ o ∈ f.scratch.stores, o < LogEntry.size * kBatch

/-- The invariant: the file has what was printed of the drained entries. -/
structure Mirrors (L : RingLayout) (f : LogFile) : Prop where
  sound : f.logger.Sound L
  limited : f.logger.drain.Limited
  written : f.written = (f.logger.drained.map LogEntry.record).flatMap LogRecord.printed
  calls : f.logger.accepted = f.calls.map fun c => c.1.record c.2
  inside : ∀ o ∈ f.scratch.stores, o < LogEntry.size * kBatch

/-- A new logger has written nothing. -/
theorem create_mirrors (L : RingLayout) : create.Mirrors L :=
  ⟨LoggerState.create_sound L, nofun, rfl, rfl, nofun⟩

/-! ## One event -/

/-- The strings of an entry matter, the bytes behind their NULs do not. -/
theorem flatMap_record (entries : List LogEntry) :
    (entries.flatMap fun e => e.record.printed) =
      (entries.map LogEntry.record).flatMap LogRecord.printed :=
  (List.flatMap_map ..).symm

/-- A batch goes to the file as it was formatted. -/
theorem written_writeBatch (f : LogFile) {results : List WriteResult}
    (hresults : .failed ∉ results) (entries : List LogEntry) :
    (f.writeBatch results entries).written =
      if f.logger.opened then
        f.written ++ (entries.map LogEntry.record).flatMap LogRecord.printed
      else f.written := by
  have hfront := front_formatBatch f.scratch entries
  rw [flatMap_record] at hfront
  unfold writeBatch
  simp only
  cases f.logger.opened with
  | false => simp
  | true =>
      by_cases hempty : (formatBatch f.scratch entries).out = 0
      · rw [hempty] at hfront
        simp [hempty, ← hfront, Buffer.front]
      · simp [hempty, writeLoop_eq hresults, hfront]

/-- Whatever changes neither the drained entries, the accepted ones nor the file. -/
theorem Mirrors.frame {g : LogFile} (h : f.Mirrors L) (hsound : g.logger.Sound L)
    (hlimited : g.logger.drain.Limited) (hdrained : g.logger.drained = f.logger.drained)
    (haccepted : g.logger.accepted = f.logger.accepted) (hwritten : g.written = f.written)
    (hcalls : g.calls = f.calls) (hstores : g.scratch.stores = f.scratch.stores) :
    g.Mirrors L :=
  ⟨hsound, hlimited, by rw [hwritten, hdrained, h.written], by rw [haccepted, hcalls, h.calls],
    by rw [hstores]; exact h.inside⟩

/-- A step that nothing is observed of. -/
theorem Mirrors.unobserved (h : f.Mirrors L) (hobserve : f.observe e = f)
    (hdrained : (f.logger.step L e.1).drained = f.logger.drained)
    (haccepted : (f.logger.step L e.1).accepted = f.logger.accepted) : (f.step L e).Mirrors L := by
  refine h.frame (h.sound.step e.1) (LoggerState.limited_step h.limited e.1) hdrained haccepted
    ?_ ?_ ?_ <;>
  · rw [LogFile.step, hobserve]

/-- Only the write of a batch adds to the drained entries. -/
theorem drained_drainStep {s : LoggerState} (hdrain : ∀ b, s.drain ≠ .writeBatch b) :
    (s.drainStep L).drained = s.drained := by
  unfold LoggerState.drainStep
  cases hs : s.drain with
  | writeBatch b => exact absurd hs (hdrain b)
  | _ => rfl

/-- The drain thread accepts nothing. -/
theorem accepted_drainStep (s : LoggerState) : (s.drainStep L).accepted = s.accepted := by
  unfold LoggerState.drainStep
  cases s.drain <;> rfl

/-- A step of the drain thread, with the batch it may write. -/
theorem Mirrors.drain (h : f.Mirrors L) {results : List WriteResult}
    (hresults : .failed ∉ results) : (f.step L (.drain, results)).Mirrors L := by
  have hsound := h.sound.step .drain
  have hlimited := LoggerState.limited_step (L := L) h.limited .drain
  by_cases hwrites : ∃ b, f.logger.drain = .writeBatch b
  · -- the batch is formatted, and written if a file is open
    obtain ⟨b, hdrain⟩ := hwrites
    have hflow := h.sound.flow.drain
    rw [hdrain] at hflow
    have hlength : b.entries.length ≤ kBatch :=
      hflow.2.le.trans (h.limited b (by rw [hdrain]; rfl))
    have hobserve : f.observe (.drain, results) = f.writeBatch results b.entries := by
      simp only [observe, hdrain]
    have hdrained : (f.logger.drainStep L).drained =
        if f.logger.opened then f.logger.drained ++ b.entries else f.logger.drained := by
      unfold LoggerState.drainStep
      simp only [hdrain]
    refine ⟨hsound, hlimited, ?_, ?_, ?_⟩
    · show (f.observe (.drain, results)).written =
        ((f.logger.drainStep L).drained.map LogEntry.record).flatMap LogRecord.printed
      rw [hobserve, written_writeBatch f hresults, hdrained, h.written]
      split
      · rw [List.map_append, List.flatMap_append]
      · rfl
    · show (f.logger.drainStep L).accepted = (f.observe (.drain, results)).calls.map _
      rw [hobserve, accepted_drainStep, h.calls]
      rfl
    · show ∀ o ∈ (f.observe (.drain, results)).scratch.stores, _
      rw [hobserve]
      exact stores_formatBatch hlength h.inside
  · have hdrain : ∀ b, f.logger.drain ≠ .writeBatch b := fun b hb => hwrites ⟨b, hb⟩
    have hobserve : f.observe (.drain, results) = f := by
      unfold observe
      cases hd : f.logger.drain with
      | writeBatch b => exact absurd hd (hdrain b)
      | _ => rfl
    exact h.unobserved hobserve (drained_drainStep hdrain) (accepted_drainStep _)

/-- The producer publishes an entry with the call and the timestamp that the file keeps for it. -/
theorem Mirrors.produce (h : f.Mirrors L) (now : UInt64) (results : List WriteResult) :
    (f.step L (.produce now, results)).Mirrors L := by
  have hsound := h.sound.step (.produce now)
  have hlimited := LoggerState.limited_step (L := L) h.limited (.produce now)
  have hdrained : (f.logger.produce L now).drained = f.logger.drained := by
    unfold LoggerState.produce
    cases f.logger.producer <;> rfl
  cases hproducer : f.logger.producer with
  | storeHead call head stamp =>
      have hobserve : f.observe (.produce now, results) =
          { f with calls := f.calls ++ [(call, stamp)] } := by
        simp only [observe, hproducer]
      have haccepted : (f.logger.produce L now).accepted =
          f.logger.accepted ++ [call.record stamp] := by
        unfold LoggerState.produce
        simp only [hproducer]
      refine ⟨hsound, hlimited, ?_, ?_, ?_⟩
      · show (f.observe (.produce now, results)).written =
          ((f.logger.produce L now).drained.map LogEntry.record).flatMap LogRecord.printed
        rw [hobserve, hdrained]
        exact h.written
      · show (f.logger.produce L now).accepted = (f.observe (.produce now, results)).calls.map _
        rw [hobserve, haccepted, h.calls, List.map_append]
        rfl
      · show ∀ o ∈ (f.observe (.produce now, results)).scratch.stores, _
        rw [hobserve]
        exact h.inside
  | _ =>
      have hobserve : f.observe (.produce now, results) = f := by
        simp only [observe, hproducer]
      have haccepted : (f.logger.produce L now).accepted = f.logger.accepted := by
        rw [LoggerState.produce, hproducer]
        first | done | rfl
      exact h.unobserved hobserve hdrained haccepted

/-- The owner keeps the file's bytes; a new drain thread has a new `scratch`. -/
theorem Mirrors.own (h : f.Mirrors L) (opens : Bool) (results : List WriteResult) :
    (f.step L (.own opens, results)).Mirrors L := by
  have hsound := h.sound.step (.own opens)
  have hlimited := LoggerState.limited_step (L := L) h.limited (.own opens)
  obtain ⟨-, -, -, -, haccepted, hdrained, -⟩ := LoggerState.ownerStep_frame (s := f.logger) opens
  have hobserve : (f.observe (.own opens, results)).written = f.written ∧
      (f.observe (.own opens, results)).calls = f.calls ∧
      (f.observe (.own opens, results)).scratch.stores = f.scratch.stores := by
    unfold observe
    cases f.logger.owner <;> exact ⟨rfl, rfl, rfl⟩
  exact h.frame hsound hlimited hdrained haccepted hobserve.1 hobserve.2.1 hobserve.2.2

/-- An event whose writes succeed keeps the file in step. -/
theorem Mirrors.step (h : f.Mirrors L) (hsucceeds : f.Succeeds e) : (f.step L e).Mirrors L := by
  obtain ⟨event, results⟩ := e
  cases event with
  | drain => exact h.drain hsucceeds
  | produce now => exact h.produce now results
  | own opens => exact h.own opens results
  | log | start | stop | setMinLevel =>
      exact h.unobserved rfl (LoggerState.step_data rfl (by nofun)).2.2.2.2.1
        (LoggerState.step_data rfl (by nofun)).2.2.2.1

/-! ## Whole runs -/

/-- The file is in step with the logger while no write fails. -/
theorem after_mirrors (L : RingLayout) {events : List FileEvent}
    (hsucceeds : Along (step L) Succeeds create events) : (after L events).Mirrors L :=
  (hsucceeds.invariant (I := fun f : LogFile => f.Mirrors L) (Q := fun _ _ => True)
    (create_mirrors L) fun _ _ h hc => ⟨trivial, h.step hc⟩).2

/-- Formatting stays inside `scratch`, whatever the calls say. -/
theorem stores_after (L : RingLayout) {events : List FileEvent}
    (hsucceeds : Along (step L) Succeeds create events) :
    ∀ o ∈ (after L events).scratch.stores, o < LogEntry.size * kBatch :=
  (after_mirrors L hsucceeds).inside

/-- The file goes along with the logger. -/
theorem run_logger (f : LogFile) (events : List FileEvent) :
    (run (step L) f events).logger = run (LoggerState.step L) f.logger (events.map Prod.fst) := by
  induction events generalizing f with
  | nil => rfl
  | cons e events ih => exact ih (f.step L e)

/-- After `stop` the file has what was printed of each accepted call. -/
theorem Mirrors.complete (h : f.Mirrors L) (hsettled : f.logger.Settled) :
    f.written = f.calls.flatMap fun c => (c.1.record c.2).printed := by
  rw [h.written, hsettled.complete h.sound.flow, h.calls, List.flatMap_map]

/-- When all lines fit, the file has the lines. -/
theorem Mirrors.wellFormed (h : f.Mirrors L) (hclean : ∀ c ∈ f.calls, c.1.Clean)
    (hwritten : f.written = f.calls.flatMap fun c => (c.1.record c.2).printed)
    (hfits : ∀ c ∈ f.calls, c.1.Fits) : f.WellFormed := by
  have hlines : f.written = f.calls.flatMap fun c => c.1.line c.2 := by
    rw [hwritten]
    exact List.flatMap_congr fun c hc => (hclean c hc).printed_eq (hfits c hc)
  refine ⟨hlines, ?_, ?_, h.inside⟩
  · rw [hlines, List.mem_flatMap]
    rintro ⟨c, hc, hnul⟩
    exact ((hclean c hc).line_ok c.2).2 hnul
  · have hone : (f.calls.map fun c => (c.1.line c.2).count 10) = f.calls.map fun _ => 1 :=
      List.map_congr_left fun c hc => ((hclean c hc).line_ok c.2).1
    rw [hlines, List.count_flatMap, Function.comp_def, hone, List.map_const',
      List.sum_replicate_nat, Nat.mul_one]

/-- After `start` and `stop` the file has exactly one line for each accepted call if and only if all
these lines fit. The strings of the calls have no NUL and no newline, and `write` does not fail. No
call was in progress when the `stop` began, and none has begun since. -/
theorem written_wellFormed_iff (L : RingLayout) (events : List FileEvent)
    (hsucceeds : Along (step L) Succeeds create events)
    (hstopped : LoggerState.Stopped L (events.map Prod.fst))
    (hclean : ∀ c ∈ (after L events).calls, c.1.Clean) :
    (after L events).WellFormed ↔ ∀ c ∈ (after L events).calls, c.1.Fits := by
  have h := after_mirrors L hsucceeds
  have hwritten := h.complete (by rw [after, run_logger]; exact hstopped.settled)
  constructor
  · intro hformed c hc
    by_contra hlong
    have hnul : 0 ∈ (c.1.record c.2).printed := (hclean c hc).nul_mem_printed hlong
    refine hformed.noNul ?_
    rw [hwritten, List.mem_flatMap]
    exact ⟨c, hc, hnul⟩
  · exact h.wellFormed hclean hwritten

/-- The logger is started, and one call is made. -/
def oneCall (call : LogCall) : List LogEvent :=
  LoggerState.started ++ .log call :: List.replicate 8 (.produce 5)

/-- One call between `start` and `stop`. Each call of `write` is interrupted once and takes three
bytes before it takes the rest. -/
def session (call : LogCall) : List FileEvent :=
  (oneCall call ++ .stop :: LoggerState.returning 11).map fun e => (e, [.interrupted, .wrote 3])

/-- The `stop` of a session returns, if nothing went wrong with its call. -/
theorem session_stopped {call : LogCall}
    (hrun : (LoggerState.after ⟨1, 0, rfl⟩ (oneCall call)).owner = .idle ∧
      (LoggerState.after ⟨1, 0, rfl⟩ (oneCall call)).running = true ∧
      (LoggerState.after ⟨1, 0, rfl⟩ (oneCall call)).producerIdle = true ∧
      (LoggerState.after ⟨1, 0, rfl⟩
        (oneCall call ++ .stop :: LoggerState.returning 11)).owner = .idle) :
    LoggerState.Stopped ⟨1, 0, rfl⟩ ((session call).map Prod.fst) := by
  obtain ⟨howner, hrunning, hidle, hreturned⟩ := hrun
  refine ⟨oneCall call, LoggerState.returning 11, ?_,
    ⟨howner, hrunning, ⟨_, List.prefix_refl _, hreturned⟩, by decide⟩, hidle⟩
  rw [session, List.map_map]
  exact List.map_id _

/-- One call of `log` between start and stop. -/
theorem written_wellFormed_iff_session :
    (after ⟨1, 0, rfl⟩ (session ⟨.Warn, [65], [66, 67]⟩)).WellFormed := by
  refine (written_wellFormed_iff ⟨1, 0, rfl⟩ (session ⟨.Warn, [65], [66, 67]⟩) ?_
    (session_stopped ?_) ?_).mpr ?_
  · decide +kernel
  · decide +kernel
  · decide +kernel
  · decide +kernel

/-- A call with a message of 1000 bytes. -/
def longMessage : LogCall :=
  ⟨.Info, [84, 65, 71], List.replicate 1000 81⟩

/-- The line of a long message loses its newline, and its NUL goes to the file. -/
theorem longMessage_malformed :
    LoggerState.Stopped ⟨1, 0, rfl⟩ ((session longMessage).map Prod.fst) ∧
      (∀ c ∈ (after ⟨1, 0, rfl⟩ (session longMessage)).calls, c.1.Clean) ∧
      (after ⟨1, 0, rfl⟩ (session longMessage)).logger.accepted.length = 1 ∧
      ¬ (after ⟨1, 0, rfl⟩ (session longMessage)).WellFormed := by
  refine ⟨session_stopped ?_, by decide +kernel, by decide +kernel, fun h => ?_⟩
  · decide +kernel
  · exact absurd h.noNul (by decide +kernel)

end LogFile
end ItchParser
