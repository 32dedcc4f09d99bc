import ItchParser.Logger.Life

/-!
# What the calls of a run have done

The state of the logger does not say which calls have returned. The events do: a `log` call has
returned when its thread is back at rest, and a `stop` when the owner is. `finished` lists the `log`
calls that have returned, and `Stopped` says that a `stop` has returned and nothing was logged in
the meantime. The code depends on neither; the results here connect both to its counters.
-/

namespace ItchParser

open FreeRunning Machine

/-- The call in progress, once it is behind the test of the minimum level. -/
def Producer.admitted : Producer → Option LogCall
  | .idle | .loadMinLevel _ => none
  | .loadHead call | .loadTail call _ | .addDropped call | .writeTimestamp call _
  | .writeLevel call _ _ | .writeTag call _ _ | .writeMessage call _ _ | .storeHead call _ _ =>
      some call

namespace LoggerState

variable {L : RingLayout} {s : LoggerState} {e : LogEvent} {before since : List LogEvent}

/-! ## `log` -/

/-- The call that a step finds at or above the minimum level. -/
def admits (s : LoggerState) (e : LogEvent) : List LogCall :=
  match e, s.producer with
  | .produce _, .loadMinLevel call =>
      if call.level.toUnderlying < s.minLevel then [] else [call]
  | _, _ => []

/-- The call at or above the minimum level that returns in a step. -/
def returns (L : RingLayout) (s : LoggerState) (e : LogEvent) : List LogCall :=
  if (s.step L e).producerIdle then s.producer.admitted.toList else []

/-- The calls at or above the minimum level, in the order in which they were tested. -/
def admitted (L : RingLayout) (events : List LogEvent) : List LogCall :=
  outputs (step L) admits create events

/-- The finished calls at or above the minimum level, in the order in which they returned. -/
def finished (L : RingLayout) (events : List LogEvent) : List LogCall :=
  outputs (step L) (returns L) create events

/-- A step moves calls on from the test to their return, and counts those that return. -/
structure Accounts (L : RingLayout) (s : LoggerState) (e : LogEvent) : Prop where
  calls : s.producer.admitted.toList ++ s.admits e =
    s.returns L e ++ (s.step L e).producer.admitted.toList
  counters : (s.step L e).head + (s.step L e).dropped =
    s.head + s.dropped + UInt64.ofNat (s.returns L e).length

/-- Nothing returns and nothing is counted. -/
theorem accounts_of_silent (hreturns : s.returns L e = [])
    (hcalls : s.producer.admitted.toList ++ s.admits e = (s.step L e).producer.admitted.toList)
    (hhead : (s.step L e).head = s.head) (hdropped : (s.step L e).dropped = s.dropped) :
    Accounts L s e := by
  refine ⟨?_, ?_⟩
  · rw [hreturns, hcalls, List.nil_append]
  · rw [hhead, hdropped, hreturns]
    exact (UInt64.add_zero _).symm

/-- A producer that stays where it is ends no call. -/
theorem accounts_of_same (hproducer : (s.step L e).producer = s.producer)
    (hadmits : s.admits e = []) (hhead : (s.step L e).head = s.head)
    (hdropped : (s.step L e).dropped = s.dropped) : Accounts L s e := by
  have hreturns : s.returns L e = [] := by
    unfold returns producerIdle
    rw [hproducer]
    cases s.producer <;> rfl
  exact accounts_of_silent hreturns (by rw [hadmits, hproducer, List.append_nil]) hhead hdropped

/-- A call that goes on does not return. -/
theorem accounts_of_busy (hadmits : s.admits e = [])
    (hnext : (s.step L e).producer.admitted = s.producer.admitted)
    (hbusy : (s.step L e).producer.admitted.isSome) (hhead : (s.step L e).head = s.head)
    (hdropped : (s.step L e).dropped = s.dropped) : Accounts L s e := by
  have hreturns : s.returns L e = [] := by
    unfold returns producerIdle
    cases hproducer : (s.step L e).producer with
    | idle =>
        rw [hproducer] at hbusy
        cases hbusy
    | _ => rfl
  exact accounts_of_silent hreturns (by rw [hadmits, hnext, List.append_nil]) hhead hdropped

/-- A call that returns behind the test has been counted. -/
theorem accounts_of_return {call : LogCall} {now : UInt64} (hadmits : s.admits (.produce now) = [])
    (hcall : s.producer.admitted = some call) (hidle : (s.step L (.produce now)).producer = .idle)
    (hcounted : (s.step L (.produce now)).head + (s.step L (.produce now)).dropped =
      s.head + s.dropped + 1) : Accounts L s (.produce now) := by
  have hreturns : s.returns L (.produce now) = [call] := by
    rw [returns, producerIdle, hidle, hcall]
    rfl
  refine ⟨?_, ?_⟩
  · rw [hreturns, hidle, hcall, hadmits]
    rfl
  · rw [hreturns, hcounted]
    rfl

/-- The test of the minimum level lets a call in, or ends it without counting it. -/
theorem accounts_of_test {call : LogCall} (hproducer : s.producer = .loadMinLevel call)
    (now : UInt64) : Accounts L s (.produce now) := by
  have hstep : s.step L (.produce now) = { s with
      producer := if call.level.toUnderlying < s.minLevel then .idle else .loadHead call } := by
    simp only [LoggerState.step, LoggerState.produce, hproducer]
  have hadmits : s.admits (.produce now) =
      if call.level.toUnderlying < s.minLevel then [] else [call] := by
    simp only [admits, hproducer]
  have hreturns : s.returns L (.produce now) = [] := by
    rw [returns, hproducer]
    exact ite_self _
  refine accounts_of_silent hreturns ?_ (by rw [hstep]) (by rw [hstep])
  rw [hadmits, hstep, hproducer]
  simp only
  split <;> rfl

/-- A call that returns has been counted by `dropped_` or by `head_`. -/
theorem Flow.accounts (hflow : s.Flow L) (now : UInt64) : Accounts L s (.produce now) := by
  have hp := hflow.producer
  cases hproducer : s.producer with
  | idle =>
      have hstep : s.step L (.produce now) = s := by
        simp only [LoggerState.step, LoggerState.produce, hproducer]
      exact accounts_of_same (by rw [hstep]) (by simp only [admits, hproducer]) (by rw [hstep])
        (by rw [hstep])
  | loadMinLevel call => exact accounts_of_test hproducer now
  | loadTail call h =>
      refine accounts_of_busy ?_ ?_ ?_ ?_ ?_ <;>
        simp only [LoggerState.step, LoggerState.produce, hproducer, admits]
      · split <;> rfl
      · split <;> rfl
  | addDropped call =>
      have hstep : s.step L (.produce now) =
          { s with producer := .idle, dropped := s.dropped + 1 } := by
        simp only [LoggerState.step, LoggerState.produce, hproducer]
      refine accounts_of_return (by simp only [admits, hproducer]) (by rw [hproducer]; rfl)
        (by rw [hstep]) ?_
      rw [hstep]
      exact (UInt64.add_assoc _ _ _).symm
  | storeHead call h stamp =>
      rw [hproducer] at hp
      obtain ⟨⟨rfl, -⟩, -⟩ := hp
      have hstep : s.step L (.produce now) = { s with
          producer := .idle, head := s.head + 1
          accepted := s.accepted ++ [call.record stamp] } := by
        simp only [LoggerState.step, LoggerState.produce, hproducer]
      refine accounts_of_return (by simp only [admits, hproducer]) (by rw [hproducer]; rfl)
        (by rw [hstep]) ?_
      rw [hstep]
      show s.head + 1 + s.dropped = s.head + s.dropped + 1
      rw [UInt64.add_assoc, UInt64.add_comm 1, ← UInt64.add_assoc]
  | loadHead =>
      refine accounts_of_busy ?_ ?_ ?_ ?_ ?_ <;>
        simp only [LoggerState.step, LoggerState.produce, hproducer, admits]
      · rfl
      · rfl
  | writeTimestamp | writeLevel | writeTag | writeMessage =>
      refine accounts_of_busy ?_ ?_ ?_ ?_ ?_ <;>
        simp only [LoggerState.step, LoggerState.produce, hproducer, admits, LoggerState.writeSlot]
      · rfl
      · rfl

/-- Every step accounts for the calls that it tests and ends. -/
theorem Flow.accounts_step (hflow : s.Flow L) (e : LogEvent) : Accounts L s e := by
  cases e with
  | produce now => exact hflow.accounts now
  | log call =>
      have hhead : (s.step L (.log call)).head = s.head := (step_data rfl (by nofun)).1
      have hdropped : (s.step L (.log call)).dropped = s.dropped := (step_data rfl (by nofun)).2.2.1
      cases hproducer : s.producer with
      | idle =>
          have hreturns : s.returns L (.log call) = [] := by
            rw [returns, hproducer]
            exact ite_self _
          refine accounts_of_silent hreturns ?_ hhead hdropped
          simp only [LoggerState.step, hproducer]
          rfl
      | _ =>
          refine accounts_of_same ?_ rfl hhead hdropped
          simp only [LoggerState.step, hproducer]
  | drain =>
      obtain ⟨-, -, -, hproducer, hhead, hdropped⟩ := drainStep_frame (L := L) (s := s)
      exact accounts_of_same hproducer rfl hhead hdropped
  | start | stop | own | setMinLevel =>
      exact accounts_of_same (step_same_producer rfl rfl) rfl (step_data rfl (by nofun)).1
        (step_data rfl (by nofun)).2.2.1

/-! ## Whole runs -/

/-- The calls at or above the minimum level are the finished ones and the one in progress. -/
theorem admitted_eq (L : RingLayout) (events : List LogEvent) :
    admitted L events = finished L events ++ (after L events).producer.admitted.toList := by
  induction events using List.reverseRecOn with
  | nil => rfl
  | append_singleton events e ih =>
      have hcalls := (((create_sound L).run events).flow.accounts_step e).calls
      unfold admitted finished at ih ⊢
      rw [outputs_concat, outputs_concat, ih, List.append_assoc, hcalls, List.append_assoc, after,
        run_concat]

/-- Every finished call has been counted once, by `head_` or by `dropped_`. -/
theorem counted (L : RingLayout) (events : List LogEvent) :
    (after L events).head + (after L events).dropped =
      UInt64.ofNat (finished L events).length := by
  induction events using List.reverseRecOn with
  | nil => rfl
  | append_singleton events e ih =>
      have hcounters := (((create_sound L).run events).flow.accounts_step e).counters
      unfold finished at ih ⊢
      rw [outputs_concat, List.length_append, UInt64.ofNat_add, ← ih, after, run_concat, hcounters]

/-! ## `stop` -/

/-- The `stop` that begins behind `before` ends a running drain thread. It has returned at some
point of `since`, which is when the owner is at rest again, and no `log` call has begun since it
began. -/
structure StopReturns (L : RingLayout) (before since : List LogEvent) : Prop where
  begins : (after L before).owner = .idle
  running : (after L before).running = true
  returned : ∃ mid, mid <+: since ∧ (after L (before ++ .stop :: mid)).owner = .idle
  silent : ∀ e ∈ since, e.logs = false

/-- A `stop` has ended a drain thread and returned. No `log` call was in progress when it began, and
none has begun since. -/
def Stopped (L : RingLayout) (events : List LogEvent) : Prop :=
  ∃ before since, events = before ++ .stop :: since ∧ StopReturns L before since ∧
    (after L before).producerIdle = true

/-- A `stop` is going to find or leave the ring empty. Its drain thread loads the head for the last
time when nothing is published any more. -/
structure Flushing (s : LoggerState) : Prop where
  idle : s.producerIdle = true
  point : s.owner = .exchangeRunning ∧ s.running = true ∨ s.owner = .join ∨ s.owner = .closeFile
  seen : ∀ h, s.drain = .loadTail true h → h = s.head
  done : s.drain = .finished → s.tail = s.head
  closing : s.owner = .closeFile → s.tail = s.head

/-- `stop` has joined the drain thread and closed the file. -/
structure Closed (s : LoggerState) : Prop where
  owner : s.owner = .idle
  drain : s.drain = .absent
  opened : s.opened = false

/-- The ring is empty, and nothing comes. -/
structure Settled (s : LoggerState) : Prop where
  idle : s.producerIdle = true
  empty : s.tail = s.head
  seen : ∀ final h, s.drain = .loadTail final h → h = s.head
  resting : s.drain.batch = none

/-- Between calls the thread that logs does nothing. -/
theorem produce_idle (hidle : s.producerIdle = true) (now : UInt64) : s.produce L now = s := by
  unfold producerIdle at hidle
  unfold LoggerState.produce
  cases hproducer : s.producer with
  | idle => rfl
  | _ => simp [hproducer] at hidle

/-- A producer at rest stays there until the next call. -/
theorem idle_step (hidle : s.producerIdle = true) (he : e.logs = false) :
    (s.step L e).producerIdle = true ∧ (s.step L e).head = s.head ∧
      (s.step L e).accepted = s.accepted := by
  cases e with
  | produce now =>
      rw [LoggerState.step, produce_idle hidle]
      exact ⟨hidle, rfl, rfl⟩
  | log call => cases he
  | drain =>
      obtain ⟨-, -, -, hproducer, hhead, -⟩ := drainStep_frame (L := L) (s := s)
      refine ⟨?_, hhead, drainStep_accepted⟩
      show (s.drainStep L).producerIdle = true
      rw [producerIdle, hproducer]
      exact hidle
  | start | stop | own | setMinLevel =>
      refine ⟨?_, (step_data rfl (by nofun)).1, (step_data rfl (by nofun)).2.2.2.1⟩
      rw [producerIdle, step_same_producer rfl rfl]
      exact hidle

/-- The owner is not back yet. -/
theorem Flushing.busy (h : s.Flushing) : s.owner ≠ .idle := by
  rcases h.point with ⟨howner, -⟩ | howner | howner <;> rw [howner] <;> nofun

/-- The drain thread does not send the owner back. -/
theorem Flushing.drainStep (h : s.Flushing) (hlife : s.Life) : (s.drainStep L).Flushing := by
  obtain ⟨howner, hrunning, -, hproducer, hhead, -⟩ := drainStep_frame (L := L) (s := s)
  refine ⟨?_, ?_, fun h' hdrain => ?_, fun hdrain => ?_, fun hclose => ?_⟩
  · rw [producerIdle, hproducer]
    exact h.idle
  · rw [howner, hrunning]
    exact h.point
  · rw [hhead]
    exact drainStep_loadTail hdrain
  · rw [drainStep_tail (.inl hdrain), hhead]
    rcases drainStep_finished hdrain with hbefore | hbefore
    · exact h.done hbefore
    · exact h.seen _ hbefore
  · -- there is no drain thread any more
    rw [howner] at hclose
    rw [drainStep_tail (.inr (hlife.between (.inr (.inr hclose))).2), hhead]
    exact h.closing hclose

/-- A `stop` goes on towards its return, and there it leaves an empty ring and a closed file. -/
theorem Flushing.ownerStep (h : s.Flushing) (hlife : s.Life) (opens : Bool) :
    (s.ownerStep opens).Flushing ∨ (s.ownerStep opens).Settled ∧ (s.ownerStep opens).Closed := by
  obtain ⟨hidle, hpoint, hseen, hdone, hclosing⟩ := id h
  unfold LoggerState.ownerStep
  rcases hpoint with ⟨howner, hrunning⟩ | howner | howner
  · simp only [howner, hrunning, if_true]
    exact .inl ⟨hidle, .inr (.inl rfl), hseen, hdone, nofun⟩
  · rw [howner]
    cases hdrain : s.drain with
    | finished =>
        exact .inl ⟨hidle, .inr (.inr rfl), nofun, nofun, fun _ => hdone hdrain⟩
    | _ => exact .inl h
  · have habsent : s.drain = .absent := by
      have hnone := (hlife.between (.inr (.inr howner))).2
      cases hdrain : s.drain with
      | absent => rfl
      | _ =>
          rw [hdrain] at hnone
          cases hnone
    simp only [howner]
    refine .inr ⟨⟨hidle, hclosing howner, fun final h hdrain => ?_, ?_⟩, rfl, habsent, rfl⟩
    · cases habsent.symm.trans hdrain
    · exact congrArg Drain.batch habsent

/-- Every event without a new call keeps a `stop` on its way. -/
theorem Flushing.step (h : s.Flushing) (hs : s.Sound L) (he : e.logs = false) :
    (s.step L e).Flushing ∨ (s.step L e).Settled ∧ (s.step L e).Closed := by
  cases e with
  | log call => cases he
  | drain => exact .inl (h.drainStep hs.life)
  | own opens => exact h.ownerStep hs.life opens
  | setMinLevel level => exact .inl ⟨h.idle, h.point, h.seen, h.done, h.closing⟩
  | produce now =>
      rw [LoggerState.step, produce_idle h.idle]
      exact .inl h
  | start | stop =>
      unfold LoggerState.step
      cases howner : s.owner with
      | idle => exact absurd howner h.busy
      | _ => exact .inl h

/-- The thread finds the ring empty each time. -/
theorem Settled.drainStep (h : s.Settled) : (s.drainStep L).Settled := by
  obtain ⟨hidle, hempty, hseen, hresting⟩ := id h
  cases hdrain : s.drain with
  | absent | finished =>
      have hstep : s.drainStep L = s := by simp only [LoggerState.drainStep, hdrain]
      rw [hstep]
      exact h
  | loadRunning =>
      simp only [LoggerState.drainStep, hdrain]
      exact ⟨hidle, hempty, nofun, rfl⟩
  | loadHead final =>
      simp only [LoggerState.drainStep, hdrain]
      refine ⟨hidle, hempty, fun final' h' hload => ?_, rfl⟩
      cases hload
      rfl
  | loadTail final h' =>
      obtain rfl := (hseen final h' hdrain).trans hempty.symm
      rw [loadTail_empty hdrain]
      cases final with
      | true => exact ⟨hidle, hempty, nofun, rfl⟩
      | false => exact ⟨hidle, hempty, nofun, rfl⟩
  | readTimestamp | readLevel | readTag | readMessage | writeBatch | storeTail =>
      rw [hdrain] at hresting
      cases hresting

/-- The owner does not disturb an empty ring. -/
theorem Settled.ownerStep (h : s.Settled) (opens : Bool) : (s.ownerStep opens).Settled := by
  obtain ⟨hidle, hempty, hseen, hresting⟩ := id h
  unfold LoggerState.ownerStep
  cases s.owner with
  | spawn => exact ⟨hidle, hempty, nofun, rfl⟩
  | join =>
      cases s.drain with
      | finished => exact ⟨hidle, hempty, nofun, rfl⟩
      | _ => exact h
  | _ => exact ⟨hidle, hempty, hseen, hresting⟩

/-- An empty ring stays empty until the next call, whatever the owner does. -/
theorem Settled.step (h : s.Settled) (he : e.logs = false) : (s.step L e).Settled := by
  cases e with
  | log call => cases he
  | drain => exact h.drainStep
  | own opens => exact h.ownerStep opens
  | setMinLevel level => exact ⟨h.idle, h.empty, h.seen, h.resting⟩
  | produce now =>
      rw [LoggerState.step, produce_idle h.idle]
      exact h
  | start | stop =>
      unfold LoggerState.step
      cases s.owner <;> exact ⟨h.idle, h.empty, h.seen, h.resting⟩

/-- When a `stop` begins, its drain thread has not seen it yet. -/
theorem Sound.flushing (hs : s.Sound L) (howner : s.owner = .idle) (hrunning : s.running = true)
    (hidle : s.producerIdle = true) : (s.step L .stop).Flushing := by
  have hfirst : s.drain.final = false := by
    refine Bool.eq_false_iff.mpr fun hfinal => ?_
    rw [hs.life.final hfinal] at howner
    cases howner
  simp only [LoggerState.step, howner]
  refine ⟨hidle, .inl ⟨rfl, hrunning⟩, fun h hdrain => ?_, fun hdrain => ?_, nofun⟩
  · rw [show s.drain = .loadTail true h from hdrain] at hfirst
    cases hfirst
  · rw [show s.drain = .finished from hdrain] at hfirst
    cases hfirst

/-- What is settled stays settled until a call of `log` begins. -/
theorem Settled.run (h : s.Settled) (hsilent : ∀ e ∈ since, e.logs = false) :
    (run (LoggerState.step L) s since).Settled := by
  induction since generalizing s with
  | nil => exact h
  | cons e since ih =>
      exact ih (h.step (hsilent e List.mem_cons_self)) fun e he => hsilent e (.tail _ he)

/-- While nothing is logged, a `stop` is on its way or has left an empty ring. -/
theorem Flushing.run (h : s.Flushing) (hs : s.Sound L) (hsilent : ∀ e ∈ since, e.logs = false) :
    (run (LoggerState.step L) s since).Flushing ∨ (run (LoggerState.step L) s since).Settled := by
  induction since generalizing s with
  | nil => exact .inl h
  | cons e since ih =>
      have hrest : ∀ e ∈ since, e.logs = false := fun e he => hsilent e (.tail _ he)
      rcases h.step hs (hsilent e List.mem_cons_self) with hnext | ⟨hsettled, -⟩
      · exact ih hnext (hs.step e) hrest
      · exact .inr (hsettled.run hrest)

/-- A `stop` that has returned with nothing logged in the meantime has left an empty ring. -/
theorem Stopped.settled {events : List LogEvent} (h : Stopped L events) :
    (after L events).Settled := by
  obtain ⟨before, since, rfl, hreturns, hidle⟩ := h
  obtain ⟨hbegins, hrunning, ⟨mid, ⟨rest, rfl⟩, hreturned⟩, hsilent⟩ := hreturns
  have hs := (create_sound L).run before
  rw [after, run_append, run_cons] at hreturned ⊢
  rw [run_append]
  have hquiet : ∀ e ∈ mid, e.logs = false := fun e he => hsilent e (List.mem_append_left _ he)
  have hmid := (hs.flushing hbegins hrunning hidle).run (hs.step _) hquiet
  have hsettled := hmid.resolve_left fun hstill => hstill.busy hreturned
  exact hsettled.run fun e he => hsilent e (List.mem_append_right _ he)

/-- With an empty ring everything accepted is in the file. -/
theorem Settled.complete (h : s.Settled) (hflow : s.Flow L) :
    s.drained.map LogEntry.record = s.accepted := by
  have hroom := hflow.room
  have hcapacity := L.capacity.toNat_lt
  have hcount : s.published = s.accepted.length :=
    eq_of_word_eq hflow.order (by omega) (by rw [← hflow.tail, ← hflow.head, h.empty])
  have hnone : unpublished s.drain = 0 := by
    have hresting := h.resting
    cases hdrain : s.drain with
    | storeTail b =>
        rw [hdrain] at hresting
        cases hresting
    | _ => rfl
  have hlength : s.drained.length = s.accepted.length := by
    rw [hflow.length, hnone, hcount, Nat.add_zero]
  rw [hflow.drained, hlength, List.take_length]

end LoggerState
end ItchParser
