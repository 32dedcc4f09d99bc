import ItchParser.Logger.Progress
import Mathlib.Data.Nat.Find

/-!
# Nothing waits forever

Progress of the three threads of the logger. A `log` call returns after at most eight steps of its
own, whatever the other threads do. The other results are about schedules in which the drain thread
and the owner take a step again and again: every entry that is accepted while the logger runs gets
to the file, and `stop` returns, unless `log` calls go on to add entries forever.
-/

namespace ItchParser.LoggerState

open Machine

variable {L : RingLayout} {s : LoggerState} {e : LogEvent} {sched : ℕ → LogEvent} {a k : ℕ}

/-! ## `log` -/

/-- A step of the producer ends the call or brings it nearer to its end. -/
theorem produce_left (hbusy : s.producerIdle = false) (now : UInt64) :
    (s.produce L now).producerIdle = true ∨ (s.produce L now).producerIdle = false ∧
      (s.produce L now).producer.left < s.producer.left := by
  unfold producerIdle at hbusy
  unfold LoggerState.produce
  cases hproducer : s.producer with
  | idle =>
      rw [hproducer] at hbusy
      cases hbusy
  | loadMinLevel call =>
      simp only
      split
      · exact .inl rfl
      · exact .inr ⟨rfl, by simp [Producer.left]⟩
  | loadTail call h =>
      simp only
      split
      · exact .inr ⟨rfl, by simp [Producer.left]⟩
      · exact .inr ⟨rfl, by simp [Producer.left]⟩
  | addDropped | storeHead => exact .inl rfl
  | loadHead | writeTimestamp | writeLevel | writeTag | writeMessage =>
      exact .inr ⟨rfl, by simp [Producer.left]⟩

/-- What the other threads do does not hold a call up. -/
theorem log_ranks (L : RingLayout) : Ranks (step L) (fun e => e.produces = true) (fun _ => True)
    (fun s => s.producerIdle = false) (fun s => s.producerIdle = true)
    fun s => s.producer.left := by
  intro s e _ _ (hbusy : s.producerIdle = false)
  cases he : e.produces with
  | false =>
      have hsame := step_producer (L := L) hbusy he
      have hstill : (s.step L e).producerIdle = false := by
        rw [producerIdle, hsame]
        exact hbusy
      exact .inr ⟨hstill, (congrArg Producer.left hsame).le,
        fun hproduces => by cases he.symm.trans hproduces⟩
  | true =>
      cases e with
      | produce now =>
          rcases produce_left (L := L) hbusy now with hidle | ⟨hstill, hless⟩
          · exact .inl hidle
          · exact .inr ⟨hstill, hless.le, fun _ => hless⟩
      | log | drain | start | stop | own | setMinLevel => cases he

/-- A call has seven steps behind its first. -/
theorem Producer.left_le (p : Producer) : p.left ≤ 7 := by
  cases p <;> simp [Producer.left]

/-- The producer never waits for another thread: in every interleaving, eight steps of its own
bring a `log` call to its end. -/
theorem log_returns (L : RingLayout) (pre rest : List LogEvent)
    (hsteps : 8 ≤ rest.countP LogEvent.produces) :
    ∃ mid, mid <+: rest ∧ (after L (pre ++ mid)).producerIdle = true := by
  cases hbusy : (after L pre).producerIdle with
  | true => exact ⟨[], List.nil_prefix, by rw [List.append_nil]; exact hbusy⟩
  | false =>
      have hleft := Producer.left_le (after L pre).producer
      have hmany : (after L pre).producer.left < rest.countP (fun e => e.produces = true) := by
        rw [List.countP_congr (q := LogEvent.produces) fun e _ => by simp]
        omega
      obtain ⟨mid, hmid, hidle⟩ := (log_ranks L).reaches hbusy rest (fun _ _ => trivial) hmany
      exact ⟨mid, hmid, by rw [after, run_append]; exact hidle⟩

/-- A call that is dropped returns as well, here in a ring that the first call has filled. -/
theorem log_returns_sample : ∃ mid, mid <+: List.replicate 8 (.produce 6) ∧
    (after ⟨1, 0, rfl⟩ (([.log ⟨.Warn, [65], [66]⟩] ++ List.replicate 8 (.produce 5) ++
      [.log ⟨.Warn, [65], [67]⟩]) ++ mid)).producerIdle = true :=
  log_returns ⟨1, 0, rfl⟩ _ _ (by decide)

/-! ## From the ring to the file -/

/-- Entry `k` is in the ring, and the drain thread is going to load a head behind it. -/
structure Seeks (k : ℕ) (s : LoggerState) : Prop where
  accepted : k < s.accepted.length
  waiting : s.published ≤ k
  present : s.drain.present = true
  unfinished : s.drain ≠ .finished
  seen : ∀ h, s.drain = .loadTail true h → k < s.published + (h - s.tail).toNat

/-- The rank of a state in which entry `k` waits. -/
def seekRank (k : ℕ) (s : LoggerState) : ℕ ×ₗ ℕ :=
  toLex (k + 1 - s.reach, s.drain.phase (fun _ => 2) fun _ h =>
    if k < s.published + (h - s.tail).toNat then 1 else 4)

/-- The other threads leave an entry waiting. -/
theorem Seeks.step_other (hseeks : s.Seeks k) (hs : s.Sound L) (he : e ≠ .drain) :
    (s.step L e).Seeks k ∧ (s.step L e).seekRank k = s.seekRank k := by
  obtain ⟨hpublished, htail⟩ := step_counters (L := L) (s := s) he
  have hdrain := hs.life.step_drain (L := L) hseeks.present hseeks.unfinished he
  refine ⟨⟨hseeks.accepted.trans_le (accepted_step L s e).length_le, ?_, ?_, ?_, ?_⟩, ?_⟩
  · rw [hpublished]
    exact hseeks.waiting
  · rw [hdrain]
    exact hseeks.present
  · rw [hdrain]
    exact hseeks.unfinished
  · rw [hdrain, hpublished, htail]
    exact hseeks.seen
  · rw [seekRank, seekRank, reach, reach, hdrain, hpublished, htail]

/-- A step of the drain thread publishes the entry or goes on to seek it. -/
theorem Seeks.drainStep (hseeks : s.Seeks k) (hs : s.Sound L) :
    k < (s.drainStep L).published ∨ (s.drainStep L).Seeks k := by
  by_cases hdone : k < (s.drainStep L).published
  · exact .inl hdone
  refine .inr ⟨?_, Nat.le_of_not_lt hdone, ?_, fun hend => ?_, fun h hload => ?_⟩
  · rw [drainStep_accepted]
    exact hseeks.accepted
  · rw [drainStep_present]
    exact hseeks.present
  · rcases drainStep_finished hend with hbefore | hbefore
    · exact hseeks.unfinished hbefore
    · -- the second loop ends on a head equal to the tail, and `seen` says it is behind the entry
      have hseen := hseeks.seen _ hbefore
      have hwaiting := hseeks.waiting
      rw [UInt64.sub_self, UInt64.toNat_zero] at hseen
      omega
  · -- the head that was just loaded counts every accepted entry
    have hhead := drainStep_loadTail hload
    have hsame : (s.drainStep L).head = s.head := (drainStep_frame (L := L)).2.2.2.2.1
    have hdistance := hs.drainStep.flow.distance
    have haccepted := hseeks.accepted
    rw [hhead, ← hsame, hdistance, drainStep_accepted]
    omega

/-- Every step of the drain thread brings an entry nearer to the file. -/
theorem Seeks.rank_lt (hseeks : s.Seeks k) (hs : s.Sound L) :
    (s.drainStep L).seekRank k < s.seekRank k := by
  have hwaiting := hseeks.waiting
  cases hb : s.drain.batch with
  | some b =>
      -- the batch counts already, and its steps go down in phase
      obtain ⟨hreach, hphase⟩ := hs.flow.batch_step hb (fun _ => 2) (by decide)
      exact Prod.Lex.toLex_lt_toLex.mpr (.inr ⟨by rw [hreach], hphase⟩)
  | none =>
      have hreach := reach_of_batch_eq_none hb
      cases hdrain : s.drain with
      | absent =>
          have hpresent := hseeks.present
          rw [hdrain] at hpresent
          cases hpresent
      | finished => exact absurd hdrain hseeks.unfinished
      | readTimestamp | readLevel | readTag | readMessage | writeBatch | storeTail =>
          rw [hdrain] at hb
          cases hb
      | loadRunning =>
          refine Prod.Lex.toLex_lt_toLex.mpr (.inr ?_)
          unfold LoggerState.drainStep reach
          rw [hdrain]
          exact ⟨rfl, by simp [Drain.phase]⟩
      | loadHead final =>
          have haccepted := hseeks.accepted
          have hsees : k < s.published + (s.head - s.tail).toNat := by
            rw [hs.flow.distance]
            omega
          refine Prod.Lex.toLex_lt_toLex.mpr (.inr ?_)
          unfold LoggerState.drainStep reach
          rw [hdrain]
          exact ⟨rfl, by simp [Drain.phase, hsees]⟩
      | loadTail final h =>
          by_cases hne : s.tail = h
          · -- the head was loaded before the entry came in
            obtain rfl := hne
            have hnext := loadTail_empty (L := L) hdrain
            cases final with
            | true =>
                have hseen := hseeks.seen _ hdrain
                rw [UInt64.sub_self, UInt64.toNat_zero] at hseen
                omega
            | false =>
                refine Prod.Lex.toLex_lt_toLex.mpr (.inr ?_)
                unfold reach
                rw [hnext, hdrain]
                exact ⟨rfl, by simp [Drain.phase, Nat.not_lt.mpr hwaiting]⟩
          · -- a batch begins, and `reach` goes up by its entries
            refine Prod.Lex.toLex_lt_toLex.mpr (.inl ?_)
            have hmore := (loadTail_reads (L := L) hdrain hne).1
            show k + 1 - _ < k + 1 - _
            omega

/-- Every step of the drain thread brings it closer to the entry `k`. -/
theorem seek_ranks (L : RingLayout) (k : ℕ) : Ranks (step L) (fun e => e = .drain)
    (fun s => s.Sound L) (Seeks k) (fun s => k < s.published) (seekRank k) := by
  intro s e hs _ hseeks
  by_cases he : e = .drain
  · subst he
    have hless := hseeks.rank_lt hs
    exact (hseeks.drainStep hs).imp_right fun hnext => ⟨hnext, hless.le, fun _ => hless⟩
  · obtain ⟨hnext, hrank⟩ := hseeks.step_other hs he
    exact .inr ⟨hnext, hrank.le, fun h => absurd h he⟩

/-- A sound logger stays sound along a schedule. -/
theorem Sound.stateAt (hs : s.Sound L) (sched : ℕ → LogEvent) (n : ℕ) :
    (stateAt (LoggerState.step L) s sched n).Sound L :=
  stateAt_invariant (I := fun s : LoggerState => s.Sound L) hs (fun _ _ ht => ht.step _) n

/-- What was accepted stays accepted. -/
theorem accepted_stateAt {n m : ℕ} (hnm : n ≤ m) :
    (stateAt (step L) s sched n).accepted <+: (stateAt (step L) s sched m).accepted := by
  induction m, hnm using Nat.le_induction with
  | base => exact List.prefix_refl _
  | succ m hnm ih =>
      rw [stateAt_succ]
      exact ih.trans (accepted_step L _ _)

/-- Entry `k` is in the ring, and the owner is about to spawn the drain thread. -/
def Spawns (k : ℕ) (s : LoggerState) : Prop :=
  k < s.accepted.length ∧ s.published ≤ k ∧ s.owner = .spawn

/-- The owner starts the thread that a call waits for. -/
theorem Sound.spawns_leadsTo (hs : s.Sound L) (hown : Recurs (fun e => e.owns = true) sched)
    (k : ℕ) : LeadsTo (LoggerState.step L) s sched (Spawns k) (Seeks k) := by
  refine leadsTo_of_next hown (hs.stateAt sched) ?_ ?_
  · rintro s e hs ⟨haccepted, hwaiting, howner⟩ he
    have hsame : (s.step L e).owner = s.owner :=
      step_owner (by rw [howner]; nofun) (Bool.eq_false_iff.mpr he)
    refine ⟨haccepted.trans_le (accepted_step L s e).length_le, ?_, hsame.trans howner⟩
    by_cases hdrain : e = .drain
    · -- there is no drain thread yet
      subst hdrain
      have habsent := (hs.life.spawning howner).2
      show (s.drainStep L).published ≤ k
      unfold LoggerState.drainStep
      cases hd : s.drain with
      | absent => exact hwaiting
      | _ =>
          rw [hd] at habsent
          cases habsent
    · rw [(step_counters hdrain).1]
      exact hwaiting
  · rintro s e hs ⟨haccepted, hwaiting, howner⟩ he
    cases e with
    | own opens =>
        show (s.ownerStep opens).Seeks k
        unfold LoggerState.ownerStep
        rw [howner]
        exact ⟨haccepted, hwaiting, rfl, nofun, nofun⟩
    | log | produce | drain | start | stop | setMinLevel => cases he

/-- In a running logger every entry of the ring is in one of these positions. -/
theorem Sound.seeks (hs : s.Sound L) (hrunning : s.running = true)
    (haccepted : k < s.accepted.length) (hwaiting : s.published ≤ k) :
    s.Spawns k ∨ s.Seeks k := by
  cases hpresent : s.drain.present with
  | false => exact .inl ⟨haccepted, hwaiting, hs.life.spawned hrunning hpresent⟩
  | true =>
      have hfirst : s.drain.final = false := by
        refine Bool.eq_false_iff.mpr fun hfinal => ?_
        rw [(hs.life.joining (hs.life.final hfinal)).1] at hrunning
        cases hrunning
      refine .inr ⟨haccepted, hwaiting, hpresent, fun hd => ?_, fun h hd => ?_⟩
      · rw [hd] at hfirst
        cases hfirst
      · rw [hd] at hfirst
        cases hfirst

/-- Every entry that has been accepted while the logger runs gets to the file, behind the entries
that were accepted before it, also when the logger is stopped in the meantime. -/
theorem accepted_drain (L : RingLayout) (sched : ℕ → LogEvent)
    (hdrain : Recurs (fun e => e = .drain) sched) (hown : Recurs (fun e => e.owns = true) sched)
    (n : ℕ) (hrunning : (stateAt (step L) create sched n).running = true) :
    ∃ m, n ≤ m ∧ (stateAt (step L) create sched n).accepted <+:
      (stateAt (step L) create sched m).drained.map LogEntry.record := by
  have hseeks : ∀ k, LeadsTo (step L) create sched (Seeks k) (fun s => k < s.published) :=
    fun k => (seek_ranks L k).leadsTo hdrain ((create_sound L).stateAt sched)
  have hn := (create_sound L).stateAt sched n
  -- the last entry is published at some time
  have hlast : ∃ m, n ≤ m ∧ (stateAt (step L) create sched n).accepted.length ≤
      (stateAt (step L) create sched m).published := by
    by_cases hdone : (stateAt (step L) create sched n).accepted.length ≤
        (stateAt (step L) create sched n).published
    · exact ⟨n, Nat.le_refl n, hdone⟩
    · have hspawns := fun k => ((create_sound L).spawns_leadsTo hown k).trans (hseeks k)
      obtain ⟨m, hnm, hm⟩ := ((hspawns _).or (hseeks _)) n
        (hn.seeks hrunning (k := (stateAt (step L) create sched n).accepted.length - 1)
          (by omega) (by omega))
      exact ⟨m, hnm, by omega⟩
  obtain ⟨m, hnm, hm⟩ := hlast
  have hflow := ((create_sound L).stateAt sched m).flow
  have hlength := hflow.length
  refine ⟨m, hnm, ?_⟩
  rw [hflow.drained]
  exact List.prefix_take_iff.mpr ⟨accepted_stateAt hnm, by omega⟩

/-- The events, and then steps of the drain thread and of the owner in turn. -/
def inTurn (events : List LogEvent) (n : ℕ) : LogEvent :=
  events[n]?.getD (if n % 2 = 0 then .drain else .own true)

/-- Behind the given events drain thread and owner take turns. -/
theorem inTurn_behind (events : List LogEvent) {n : ℕ} (hn : events.length ≤ n) :
    inTurn events n = if n % 2 = 0 then .drain else .own true := by
  rw [inTurn, List.getElem?_eq_none hn]
  rfl

/-- The drain thread has its turn again and again. -/
theorem recurs_drain (events : List LogEvent) : Recurs (fun e => e = .drain) (inTurn events) :=
  fun n => ⟨2 * (n + events.length), by omega, by
    rw [inTurn_behind events (by omega), if_pos (Nat.mul_mod_right 2 _)]⟩

/-- The owner has its turn again and again. -/
theorem recurs_owns (events : List LogEvent) : Recurs (fun e => e.owns = true) (inTurn events) :=
  fun n => ⟨2 * (n + events.length) + 1, by omega, by
    rw [inTurn_behind events (by omega), if_neg (by omega)]
    rfl⟩

/-- A logger is started, and a call is logged before the drain thread takes its first step. -/
def logging : List LogEvent :=
  [.start] ++ List.replicate 4 (.own true) ++ [.log ⟨.Warn, [65], [66, 67]⟩] ++
    List.replicate 8 (.produce 5)

/-- Two calls of `log` before the threads take turns. -/
theorem accepted_drain_sample : ∃ m, 14 ≤ m ∧
    (stateAt (step ⟨1, 0, rfl⟩) create (inTurn logging) 14).accepted <+:
      (stateAt (step ⟨1, 0, rfl⟩) create (inTurn logging) m).drained.map LogEntry.record :=
  accepted_drain ⟨1, 0, rfl⟩ (inTurn logging) (recurs_drain _) (recurs_owns _) 14
    (by decide +kernel)

/-! ## `stop` -/

/-- `stop` waits for a drain thread that has not ended. -/
def Joins (s : LoggerState) : Prop :=
  s.owner = .join ∧ s.drain ≠ .finished

/-- The rank of a state in which `stop` waits, where at most `a` entries are ever accepted. -/
def joinRank (a : ℕ) (s : LoggerState) : ℕ ×ₗ ℕ ×ₗ ℕ :=
  toLex (a - s.accepted.length, toLex (s.accepted.length - s.reach,
    s.drain.phase (fun final => if final then 2 else 5) fun final _ => if final then 1 else 4))

/-- The other threads do not end the wait, and an entry that they add counts. -/
theorem Joins.step_other (hjoins : s.Joins) (hs : s.Sound L) (he : e ≠ .drain)
    (hle : (s.step L e).accepted.length ≤ a) :
    (s.step L e).Joins ∧ (s.step L e).joinRank a ≤ s.joinRank a := by
  obtain ⟨howner, hrest⟩ := hjoins
  have hpresent := (hs.life.joining howner).2
  have hdrain := hs.life.step_drain (L := L) hpresent hrest he
  have hkept : (s.step L e).owner = .join := by
    cases e with
    | own opens =>
        show (s.ownerStep opens).owner = .join
        unfold LoggerState.ownerStep
        rw [howner]
        cases hd : s.drain with
        | finished => exact absurd hd hrest
        | _ => exact howner
    | log | produce | drain | start | stop | setMinLevel =>
        exact (step_owner (by rw [howner]; nofun) rfl).trans howner
  refine ⟨⟨hkept, by rw [hdrain]; exact hrest⟩, Prod.Lex.toLex_le_toLex.mpr ?_⟩
  -- a new entry gives the thread more to do, so it comes first in the rank
  rcases (accepted_step L s e).length_le.eq_or_lt with heq | hlt
  · refine .inr ⟨by rw [heq], le_of_eq ?_⟩
    rw [reach, reach, hdrain, (step_counters he).1, heq]
  · exact .inl (by show _ - _ < _ - _; omega)

/-- A step of the drain thread ends it or brings its end closer. -/
theorem Joins.drainStep (hjoins : s.Joins) (hs : s.Sound L) :
    (s.drainStep L).drain = .finished ∨
      (s.drainStep L).Joins ∧ (s.drainStep L).joinRank a < s.joinRank a := by
  obtain ⟨howner, hrest⟩ := hjoins
  by_cases hend : (s.drainStep L).drain = .finished
  · exact .inl hend
  refine .inr ⟨⟨(drainStep_frame (L := L)).1.trans howner, hend⟩,
    Prod.Lex.toLex_lt_toLex.mpr (.inr ⟨by rw [drainStep_accepted], ?_⟩)⟩
  show toLex _ < toLex _
  rw [Prod.Lex.toLex_lt_toLex, drainStep_accepted]
  have hreach' := hs.drainStep.flow.reach_le
  rw [drainStep_accepted] at hreach'
  cases hb : s.drain.batch with
  | some b =>
      obtain ⟨hreach, hphase⟩ :=
        hs.flow.batch_step hb (fun final => if final then 2 else 5) (by decide)
      exact .inr ⟨by rw [hreach], hphase⟩
  | none =>
      cases hdrain : s.drain with
      | absent =>
          have hpresent := (hs.life.joining howner).2
          rw [hdrain] at hpresent
          cases hpresent
      | finished => exact absurd hdrain hrest
      | readTimestamp | readLevel | readTag | readMessage | writeBatch | storeTail =>
          rw [hdrain] at hb
          cases hb
      | loadRunning =>
          -- `running_` is false while `stop` joins, so the second loop comes next
          refine .inr ?_
          unfold LoggerState.drainStep reach
          rw [hdrain]
          exact ⟨rfl, by simp [Drain.phase, (hs.life.joining howner).1]⟩
      | loadHead final =>
          refine .inr ?_
          unfold LoggerState.drainStep reach
          rw [hdrain]
          exact ⟨rfl, by cases final <;> simp [Drain.phase]⟩
      | loadTail final h =>
          by_cases hne : s.tail = h
          · obtain rfl := hne
            have hnext := loadTail_empty (L := L) hdrain
            cases final with
            | true => exact absurd (by rw [hnext]; rfl) hend
            | false =>
                refine .inr ?_
                unfold reach
                rw [hnext, hdrain]
                exact ⟨rfl, by simp [Drain.phase]⟩
          · have hmore := (loadTail_reads (L := L) hdrain hne).1
            exact .inl (by show _ - _ < _ - _; omega)

/-- Every step of the drain thread brings the end of the join closer. -/
theorem join_ranks (L : RingLayout) (a : ℕ) : Ranks (step L) (fun e => e = .drain)
    (fun s => s.Sound L ∧ s.accepted.length ≤ a) Joins
    (fun s => s.owner = .join ∧ s.drain = .finished) (joinRank a) := by
  rintro s e ⟨hs, -⟩ ⟨-, hle⟩ hjoins
  by_cases he : e = .drain
  · subst he
    rcases hjoins.drainStep (a := a) hs with hend | ⟨hnext, hless⟩
    · exact .inl ⟨(drainStep_frame (L := L)).1.trans hjoins.1, hend⟩
    · exact .inr ⟨hnext, hless.le, fun _ => hless⟩
  · obtain ⟨hnext, hrank⟩ := hjoins.step_other hs he hle
    exact .inr ⟨hnext, hrank, fun h => absurd h he⟩

/-- The owner is in `stop`. -/
def Stopping (s : LoggerState) : Prop :=
  s.owner = .exchangeRunning ∨ s.owner = .join ∨ s.owner = .closeFile

/-- The owner goes on to the next point of its call. -/
theorem Sound.owner_leadsTo (hs : s.Sound L) (hown : Recurs (fun e => e.owns = true) sched)
    {owner : Owner} (hbusy : owner ≠ .idle) {Q : LoggerState → Prop}
    (hgo : ∀ (s : LoggerState) opens, s.owner = owner → Q (s.ownerStep opens)) :
    LeadsTo (LoggerState.step L) s sched (fun s => s.owner = owner) Q := by
  refine leadsTo_of_next hown (hs.stateAt sched) ?_ ?_
  · intro s e _ howner he
    exact (step_owner (howner.symm ▸ hbusy) (Bool.eq_false_iff.mpr he)).trans howner
  · intro s e _ howner he
    cases e with
    | own opens => exact hgo s opens howner
    | log | produce | drain | start | stop | setMinLevel => cases he

/-- `join` returns when the drain thread has ended. -/
theorem Sound.ended_leadsTo (hs : s.Sound L) (hown : Recurs (fun e => e.owns = true) sched) :
    LeadsTo (LoggerState.step L) s sched (fun s => s.owner = .join ∧ s.drain = .finished)
      (fun s => s.owner = .closeFile) := by
  refine leadsTo_of_next hown (hs.stateAt sched) ?_ ?_
  · rintro s e hs ⟨howner, hend⟩ he
    rw [Bool.not_eq_true] at he
    exact ⟨(step_owner (by rw [howner]; nofun) he).trans howner, step_finished hend he⟩
  · rintro s e - ⟨howner, hend⟩ he
    cases e with
    | own opens =>
        show (s.ownerStep opens).owner = .closeFile
        unfold LoggerState.ownerStep
        simp only [howner, hend]
    | log | produce | drain | start | stop | setMinLevel => cases he

/-- The last step of `stop`. -/
theorem Sound.close_leadsTo (hs : s.Sound L) (hown : Recurs (fun e => e.owns = true) sched) :
    LeadsTo (LoggerState.step L) s sched (fun s => s.owner = .closeFile)
      (fun s => s.owner = .idle) := by
  refine hs.owner_leadsTo hown (by nofun) fun s opens howner => ?_
  unfold LoggerState.ownerStep
  simp only [howner]

/-- `join` returns, if the number of accepted entries is bounded. -/
theorem Sound.join_leadsTo (hs : s.Sound L) (hdrain : Recurs (fun e => e = .drain) sched)
    (hown : Recurs (fun e => e.owns = true) sched)
    (hbound : ∀ m, (Machine.stateAt (LoggerState.step L) s sched m).accepted.length ≤ a) :
    LeadsTo (LoggerState.step L) s sched (fun s => s.owner = .join) (fun s => s.owner = .idle) := by
  have hended := (hs.ended_leadsTo hown).trans (hs.close_leadsTo hown)
  have hjoins := (join_ranks L a).leadsTo hdrain fun m => ⟨hs.stateAt sched m, hbound m⟩
  intro m hm
  by_cases hend : (Machine.stateAt (LoggerState.step L) s sched m).drain = .finished
  · exact hended m ⟨hm, hend⟩
  · exact (hjoins.trans hended) m ⟨hm, hend⟩

/-- From every point of `stop` the owner gets back, if the number of accepted entries is bounded. -/
theorem Sound.stopping_leadsTo (hs : s.Sound L) (hdrain : Recurs (fun e => e = .drain) sched)
    (hown : Recurs (fun e => e.owns = true) sched)
    (hbound : ∀ m, (Machine.stateAt (LoggerState.step L) s sched m).accepted.length ≤ a) :
    LeadsTo (LoggerState.step L) s sched Stopping (fun s => s.owner = .idle) := by
  have hjoin := hs.join_leadsTo hdrain hown hbound
  have hexchange : LeadsTo (LoggerState.step L) s sched (fun s => s.owner = .exchangeRunning)
      (fun s => s.owner = .join ∨ s.owner = .idle) := by
    refine hs.owner_leadsTo hown (by nofun) fun s opens howner => ?_
    unfold LoggerState.ownerStep
    cases hrunning : s.running <;> simp [howner]
  rintro m (hstop | hstop | hstop)
  · exact hexchange.trans (hjoin.or (.of_imp fun _ h => h)) m hstop
  · exact hjoin m hstop
  · exact hs.close_leadsTo hown m hstop

/-- `stop` returns in every schedule in which the drain thread and the owner go on, unless entries
are accepted forever. -/
theorem stop_returns (L : RingLayout) (sched : ℕ → LogEvent)
    (hdrain : Recurs (fun e => e = .drain) sched) (hown : Recurs (fun e => e.owns = true) sched)
    (n : ℕ) (hstop : (stateAt (step L) create sched n).Stopping) :
    (∃ m, n ≤ m ∧ (stateAt (step L) create sched m).owner = .idle) ∨
      ∀ a, ∃ m, a < (stateAt (step L) create sched m).accepted.length := by
  by_cases hforever : ∀ a, ∃ m, a < (stateAt (step L) create sched m).accepted.length
  · exact .inr hforever
  · push Not at hforever
    obtain ⟨a, hbound⟩ := hforever
    exact .inl ((create_sound L).stopping_leadsTo hdrain hown hbound n hstop)

/-- A `stop` behind the calls of `log`. -/
theorem stop_returns_sample :
    (∃ m, 15 ≤ m ∧
      (stateAt (step ⟨1, 0, rfl⟩) create (inTurn (logging ++ [.stop])) m).owner = .idle) ∨
      ∀ a, ∃ m, a <
        (stateAt (step ⟨1, 0, rfl⟩) create (inTurn (logging ++ [.stop])) m).accepted.length :=
  stop_returns ⟨1, 0, rfl⟩ (inTurn (logging ++ [.stop])) (recurs_drain _) (recurs_owns _) 15
    (.inl (by decide +kernel))

/-- As long as no call begins, the producer stays at rest and nothing is accepted. -/
theorem silent_stateAt {n : ℕ} (hidle : (stateAt (step L) s sched n).producerIdle = true)
    (hsilent : ∀ m, n ≤ m → (sched m).logs = false) {m : ℕ} (hnm : n ≤ m) :
    (stateAt (step L) s sched m).producerIdle = true ∧
      (stateAt (step L) s sched m).accepted = (stateAt (step L) s sched n).accepted := by
  induction m, hnm using Nat.le_induction with
  | base => exact ⟨hidle, rfl⟩
  | succ m hnm ih =>
      obtain ⟨hnext, -, hsame⟩ := idle_step (L := L) ih.1 (hsilent m hnm)
      rw [stateAt_succ]
      exact ⟨hnext, hsame.trans ih.2⟩

/-- As long as no call begins and the owner has not returned, a `stop` is on its way. -/
theorem flushing_stateAt {n : ℕ} (hs : s.Sound L)
    (hfirst : (stateAt (step L) s sched n).Flushing)
    (hsilent : ∀ m, n ≤ m → (sched m).logs = false) {m : ℕ} (hnm : n ≤ m)
    (hbusy : ∀ i, n ≤ i → i ≤ m → (stateAt (step L) s sched i).owner ≠ .idle) :
    (stateAt (step L) s sched m).Flushing := by
  induction m, hnm using Nat.le_induction with
  | base => exact hfirst
  | succ m hnm ih =>
      have hm := ih fun i hni him => hbusy i hni (by omega)
      have hnext := hm.step (hs.stateAt sched m) (hsilent m hnm)
      have hsucc : stateAt (step L) s sched (m + 1) =
          (stateAt (step L) s sched m).step L (sched m) := stateAt_succ m
      rw [← hsucc] at hnext
      exact hnext.resolve_right fun hclosed =>
        hbusy (m + 1) (by omega) (Nat.le_refl _) hclosed.2.owner

/-- A `stop` of a running logger that begins while no `log` call is in progress returns, if none
comes. At its return the drain thread has been joined, the file is closed, and everything that was
accepted is in it. -/
theorem stop_flushes (L : RingLayout) (sched : ℕ → LogEvent)
    (hdrain : Recurs (fun e => e = .drain) sched) (hown : Recurs (fun e => e.owns = true) sched)
    (n : ℕ) (hstop : sched n = .stop) (hbegins : (stateAt (step L) create sched n).owner = .idle)
    (hrunning : (stateAt (step L) create sched n).running = true)
    (hidle : (stateAt (step L) create sched n).producerIdle = true)
    (hsilent : ∀ m, n ≤ m → (sched m).logs = false) :
    ∃ m, n < m ∧ (∀ i, n < i → i < m → (stateAt (step L) create sched i).owner ≠ .idle) ∧
      (stateAt (step L) create sched m).Closed ∧
      (stateAt (step L) create sched m).accepted = (stateAt (step L) create sched n).accepted ∧
      (stateAt (step L) create sched m).drained.map LogEntry.record =
        (stateAt (step L) create sched n).accepted := by
  have hs := create_sound L
  have hkept := fun m (hnm : n ≤ m) => silent_stateAt hidle hsilent hnm
  have hbound : ∀ m, (stateAt (step L) create sched m).accepted.length ≤
      (stateAt (step L) create sched n).accepted.length := by
    intro m
    rcases le_total m n with hmn | hnm
    · exact (accepted_stateAt hmn).length_le
    · rw [(hkept m hnm).2]
  have hfirst : (stateAt (step L) create sched (n + 1)).Flushing := by
    rw [stateAt_succ, hstop]
    exact (hs.stateAt sched n).flushing hbegins hrunning hidle
  have hreturns : ∃ m, n < m ∧ (stateAt (step L) create sched m).owner = .idle :=
    hs.stopping_leadsTo hdrain hown hbound (n + 1) (hfirst.point.imp_left And.left)
  -- the first return is the one of this `stop`
  have hm := Nat.find_spec hreturns
  have hbusy : ∀ i, n < i → i < Nat.find hreturns →
      (stateAt (step L) create sched i).owner ≠ .idle :=
    fun i hni him hi => Nat.find_min hreturns him ⟨hni, hi⟩
  generalize Nat.find hreturns = m at hm hbusy
  obtain ⟨hnm, howner⟩ := hm
  obtain ⟨m, rfl⟩ : ∃ k, m = k + 1 := ⟨m - 1, by omega⟩
  have hlater : n ≠ m := by
    rintro rfl
    exact hfirst.busy howner
  have hbefore := flushing_stateAt hs hfirst (fun i hi => hsilent i (by omega))
    (show n + 1 ≤ m by omega) fun i hi him => hbusy i (by omega) (by omega)
  have hlast := hbefore.step (hs.stateAt sched m) (hsilent m (by omega))
  have hsucc : stateAt (step L) create sched (m + 1) =
      (stateAt (step L) create sched m).step L (sched m) := stateAt_succ m
  rw [← hsucc] at hlast
  obtain ⟨hsettled, hclosed⟩ := hlast.resolve_left fun hstill => hstill.busy howner
  have hdrained := hsettled.complete (hs.stateAt sched (m + 1)).flow
  have haccepted := (hkept (m + 1) (by omega)).2
  exact ⟨m + 1, hnm, hbusy, hclosed, haccepted, hdrained.trans haccepted⟩

/-- A `stop` behind the calls of `log`, which have returned. -/
theorem stop_flushes_sample : ∃ m, 14 < m ∧
    (∀ i, 14 < i → i < m →
      (stateAt (step ⟨1, 0, rfl⟩) create (inTurn (logging ++ [.stop])) i).owner ≠ .idle) ∧
    (stateAt (step ⟨1, 0, rfl⟩) create (inTurn (logging ++ [.stop])) m).Closed ∧
    (stateAt (step ⟨1, 0, rfl⟩) create (inTurn (logging ++ [.stop])) m).accepted =
      (stateAt (step ⟨1, 0, rfl⟩) create (inTurn (logging ++ [.stop])) 14).accepted ∧
    (stateAt (step ⟨1, 0, rfl⟩) create (inTurn (logging ++ [.stop])) m).drained.map
        LogEntry.record =
      (stateAt (step ⟨1, 0, rfl⟩) create (inTurn (logging ++ [.stop])) 14).accepted := by
  refine stop_flushes ⟨1, 0, rfl⟩ _ (recurs_drain _) (recurs_owns _) 14 rfl (by decide +kernel)
    (by decide +kernel) (by decide +kernel) fun m hm => ?_
  rcases hm.eq_or_lt with rfl | hlt
  · rfl
  · rw [inTurn_behind _ hlt]
    split <;> rfl

end ItchParser.LoggerState
