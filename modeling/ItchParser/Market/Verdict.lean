import ItchParser.Market.Counters

/-!
# What becomes of an order event

Every A, F, E, C, X, D and U is accepted or turned away for one of five reasons. The verdict only
depends on the live orders and the capacities, and it decides which counters of the statistics go
up. `events` are those counters. What describes the live orders is left out of them, and so are the
locate mismatches, which an event of any verdict may add to, and the counters of other messages.
-/

namespace ItchParser

open OrderBook

/-- What an order event is counted as. -/
inductive Verdict where
  | accepted
  | unknown
  | duplicate
  | levelMissing
  | orderPool
  | levelPool
  deriving DecidableEq

namespace EngineStats

/-- The counters of order events. -/
def events (s : EngineStats) : EngineStats :=
  { s with
    nonCrossTrades := 0
    crossTrades := 0
    brokenTrades := 0
    instrumentsRegistered := 0
    locateMismatches := 0
    liveOrders := 0
    liveLevels := 0
    peakLiveOrders := 0
    peakLiveLevels := 0 }

variable (s : EngineStats) (rc : Int) (home locate : StockLocate)

@[simp] theorem events_raiseOrders : s.raiseOrders.events = s.events := by
  rw [raiseOrders_eq]; rfl

@[simp] theorem events_raiseLevels : (s.raiseLevels rc).events = s.events := by
  rw [raiseLevels_eq]; rfl

@[simp] theorem events_dropOrder : s.dropOrder.events = s.events := by
  rw [dropOrder_eq]; rfl

@[simp] theorem events_dropLevel : (s.dropLevel rc).events = s.events := by
  rw [dropLevel_eq]; rfl

@[simp] theorem events_countMismatch : (s.countMismatch home locate).events = s.events := by
  rw [countMismatch_eq]; rfl

/-- The order pool has no slot for an add. -/
def countAddPool (s : EngineStats) : EngineStats :=
  { s with
    addRejectedPoolExhausted := s.addRejectedPoolExhausted + 1
    poolExhausted := s.poolExhausted + 1 }

/-- The order pool has no slot for a replace. -/
def countReplacePool (s : EngineStats) : EngineStats :=
  { s with
    replaceRejectedPoolExhausted := s.replaceRejectedPoolExhausted + 1
    poolExhausted := s.poolExhausted + 1 }

end EngineStats

open EngineStats

/-- What a verdict adds to the event counters, where `accept` counts an accepted event and `pool`
one that finds no order slot. -/
def Verdict.tally (accept pool : EngineStats → EngineStats) : Verdict → EngineStats → EngineStats
  | .accepted => accept
  | .unknown => countUnknown
  | .duplicate => countDuplicate
  | .levelMissing => countLevelMissing
  | .orderPool => pool
  | .levelPool => countLevelPoolExhausted

/-- The verdict that one of the pools is exhausted. -/
def Verdict.exhausted : Verdict → Bool
  | .orderPool => true
  | .levelPool => true
  | _ => false

/-- The events A, F, E, C, X, D and U. -/
def Call.isOrderEvent : Call → Bool
  | .addOrder _ _ _ _ _ _ _ _ => true
  | .orderExecuted _ _ _ _ => true
  | .orderExecutedWithPrice _ _ _ _ _ _ => true
  | .orderCancel _ _ _ => true
  | .orderDelete _ _ => true
  | .orderReplace _ _ _ _ _ _ => true
  | _ => false

/-- The counter of the accepted events of the kind of the call. -/
def Call.accept : Call → EngineStats → EngineStats
  | .addOrder _ _ _ _ _ _ _ attributed => fun s =>
      if attributed then { s with addOrdersWithMpid := s.addOrdersWithMpid + 1 }
      else { s with addOrders := s.addOrders + 1 }
  | .orderExecuted _ _ _ _ => fun s => { s with orderExecuted := s.orderExecuted + 1 }
  | .orderExecutedWithPrice _ _ _ _ _ _ => fun s =>
      { s with orderExecutedWithPrice := s.orderExecutedWithPrice + 1 }
  | .orderCancel _ _ _ => fun s => { s with orderCancel := s.orderCancel + 1 }
  | .orderDelete _ _ => fun s => { s with orderDelete := s.orderDelete + 1 }
  | .orderReplace _ _ _ _ _ _ => fun s => { s with orderReplace := s.orderReplace + 1 }
  | _ => id

/-- The counter of the events of this kind that find no order slot. -/
def Call.pool : Call → EngineStats → EngineStats
  | .orderReplace _ _ _ _ _ _ => countReplacePool
  | _ => countAddPool

/-- The number of accepted order events. -/
def EngineStats.accepted (s : EngineStats) : Nat :=
  s.addOrders + s.addOrdersWithMpid + s.orderExecuted + s.orderExecutedWithPrice + s.orderCancel +
    s.orderDelete + s.orderReplace

/-- An accepted event adds one to the accepted ones. -/
theorem accepted_accept {c : Call} (hc : c.isOrderEvent = true) (s : EngineStats) :
    (c.accept s).accepted = s.accepted + 1 := by
  cases c with
  | addOrder _ _ _ _ _ _ _ attributed =>
      cases attributed with
      | false =>
          simp only [Call.accept, accepted, Bool.false_eq_true, if_false]
          omega
      | true =>
          simp only [Call.accept, accepted, if_true]
          omega
  | orderExecuted _ _ _ _ => simp only [Call.accept, accepted]; omega
  | orderExecutedWithPrice _ _ _ _ _ _ => simp only [Call.accept, accepted]; omega
  | orderCancel _ _ _ => simp only [Call.accept, accepted]; omega
  | orderDelete _ _ => simp only [Call.accept, accepted]; omega
  | orderReplace _ _ _ _ _ _ => rfl
  | _ => cases hc

/-! ## The verdicts -/

instance (caps : Capacities) (live : List OrderData) (d : OrderData) :
    Decidable (LevelsFull caps live d) :=
  inferInstanceAs (Decidable (_ ∧ _))

/-- The verdict on a new order. -/
def addVerdict (caps : Capacities) (live : List OrderData) (d : OrderData) : Verdict :=
  if (findIn live d.orderId).isSome then .duplicate
  else if caps.orders ≤ live.length then .orderPool
  else if LevelsFull caps live d then .levelPool
  else .accepted

/-- The verdict on an event that takes shares off the order `id`. -/
def reduceVerdict (live : List OrderData) (id : OrderReferenceNumber) : Verdict :=
  match findIn live id with
  | none => .unknown
  | some d => if d.priceCents = kEmptyPrice then .levelMissing else .accepted

/-- The verdict on a replace. -/
def replaceVerdict (caps : Capacities) (live : List OrderData) (oldId newId : OrderReferenceNumber)
    (newQty : Shares) (newPx : Price) (ts : Timestamp) : Verdict :=
  match findIn live oldId with
  | none => .unknown
  | some d =>
      if (findIn live newId).isSome then .duplicate
      else if caps.orders ≤ live.length then .orderPool
      else if d.priceCents = kEmptyPrice then .levelMissing
      else if LevelsFull caps (without live d.orderId)
          (Market.replacement d newId newQty newPx ts) then .levelPool
      else .accepted

/-- The verdict on an order event; other calls get none. -/
def verdict (caps : Capacities) (live : List OrderData) : Call → Option Verdict
  | .addOrder locate id bsi qty px ts mpid attributed =>
      some (addVerdict caps live
        ⟨id, locate, px, qty, toSide bsi, ts, if attributed then mpid else MPID.blank⟩)
  | .orderExecuted _ id _ _ => some (reduceVerdict live id)
  | .orderExecutedWithPrice _ id _ _ _ _ => some (reduceVerdict live id)
  | .orderCancel _ id _ => some (reduceVerdict live id)
  | .orderDelete _ id => some (reduceVerdict live id)
  | .orderReplace _ oldId newId newQty newPx ts =>
      some (replaceVerdict caps live oldId newId newQty newPx ts)
  | _ => none

/-- The order events are those with a verdict. -/
theorem verdict_isSome (caps : Capacities) (live : List OrderData) (c : Call) :
    (verdict caps live c).isSome = c.isOrderEvent := by
  cases c <;> rfl

namespace Market

variable {caps : Capacities} {m : Market} {d : OrderData} {c : Call} {v : Verdict}
  {id newId : OrderReferenceNumber} {qty : Shares} {newPx : Price} {ts : Timestamp}
  {locate : StockLocate} {accept : EngineStats → EngineStats}

/-- An update that counts events, and nothing else. -/
def CountsEvents (f : EngineStats → EngineStats) : Prop :=
  ∀ s, (f s).events = f s.events

/-- Accepting an event only looks at the event counters. -/
theorem countsEvents_accept (c : Call) : CountsEvents c.accept := by
  intro s
  cases c with
  | addOrder _ _ _ _ _ _ _ attributed => cases attributed <;> rfl
  | _ => rfl

/-- Counting an event after any update that leaves the event counters alone. -/
theorem CountsEvents.after {s t : EngineStats} (haccept : CountsEvents accept)
    (h : s.events = t.events) : (accept s).events = accept t.events := by
  rw [haccept, h]

/-- The event counters after an order was placed or turned away. -/
theorem place_events (hfresh : m.find d.orderId = none) (haccept : CountsEvents accept) :
    (m.place caps d accept).stats.events =
      if LevelsFull caps m.live d then m.stats.events.countLevelPoolExhausted
      else accept m.stats.events := by
  split
  · next hfull => rw [place_rejected hfresh hfull]; rfl
  · next hroom =>
      rw [place_accepted hfresh hroom]
      refine haccept.after ?_
      rw [events_raiseOrders, events_raiseLevels]
      rfl

/-- The event counters after A and F. -/
theorem addOrder_events (attributed : Bool)
    (haccept : accept = fun s =>
      if attributed then { s with addOrdersWithMpid := s.addOrdersWithMpid + 1 }
      else { s with addOrders := s.addOrders + 1 }) :
    (m.addOrder caps d attributed).stats.events =
      (addVerdict caps m.live d).tally accept countAddPool m.stats.events := by
  unfold Market.addOrder addVerdict
  rw [find_eq]
  cases hfind : findIn m.live d.orderId with
  | some x => rfl
  | none =>
      have hcounts : CountsEvents accept := fun s => by
        rw [haccept]
        cases attributed <;> rfl
      simp only [Option.isSome_none, Bool.false_eq_true, if_false, ← haccept]
      by_cases hfull : caps.orders ≤ m.live.length
      · rw [if_pos hfull, if_pos (show caps.orders ≤ (m.know d.locate).live.length from hfull)]
        rfl
      · rw [if_neg hfull, if_neg (show ¬ caps.orders ≤ (m.know d.locate).live.length from hfull)]
        refine (place_events (m := m.know d.locate) hfind hcounts).trans ?_
        by_cases hlevels : LevelsFull caps m.live d
        · rw [if_pos hlevels, if_pos (show LevelsFull caps (m.know d.locate).live d from hlevels)]
          rfl
        · rw [if_neg hlevels, if_neg (show ¬ LevelsFull caps (m.know d.locate).live d from hlevels)]
          rfl

/-- E, C and X. No order slot is needed, so `pool` does not matter. -/
theorem reduceOrder_events (haccept : CountsEvents accept) (pool : EngineStats → EngineStats) :
    (m.reduceOrder locate id qty accept).stats.events =
      (reduceVerdict m.live id).tally accept pool m.stats.events := by
  unfold Market.reduceOrder reduceVerdict
  rw [find_eq]
  cases findIn m.live id with
  | none => rfl
  | some d =>
      have hmismatch := events_countMismatch m.stats d.locate locate
      by_cases hpx : d.priceCents = kEmptyPrice
      · simp only [hpx, if_true]
        exact congrArg countLevelMissing hmismatch
      · simp only [hpx, if_false]
        split
        · show ((accept _).dropOrder.dropLevel _).events = _
          rw [events_dropLevel, events_dropOrder]
          exact haccept.after hmismatch
        · exact haccept.after hmismatch

/-- The event counters after D. -/
theorem orderDelete_events (pool : EngineStats → EngineStats) :
    (m.orderDelete locate id).stats.events =
      (reduceVerdict m.live id).tally (fun s => { s with orderDelete := s.orderDelete + 1 }) pool
        m.stats.events := by
  unfold Market.orderDelete reduceVerdict
  rw [find_eq]
  cases findIn m.live id with
  | none => rfl
  | some d =>
      have hmismatch := events_countMismatch m.stats d.locate locate
      by_cases hpx : d.priceCents = kEmptyPrice
      · simp only [hpx, if_true]
        exact congrArg countLevelMissing hmismatch
      · simp only [hpx, if_false]
        have hdropped : ((m.stats.countMismatch d.locate locate).dropOrder.dropLevel
            (removalCode m.live d)).events = m.stats.events := by
          rw [events_dropLevel, events_dropOrder, hmismatch]
        exact congrArg (fun s : EngineStats => { s with orderDelete := s.orderDelete + 1 }) hdropped

/-- The event counters after U. -/
theorem orderReplace_events :
    (m.orderReplace caps locate id newId qty newPx ts).stats.events =
      (replaceVerdict caps m.live id newId qty newPx ts).tally
        (fun s => { s with orderReplace := s.orderReplace + 1 }) countReplacePool
        m.stats.events := by
  unfold Market.orderReplace replaceVerdict
  rw [find_eq]
  cases findIn m.live id with
  | none => rfl
  | some d =>
      have hmismatch := events_countMismatch m.stats d.locate locate
      simp only [count_live, find_eq]
      by_cases hnew : (findIn m.live newId).isSome
      · simp only [hnew, if_true]
        exact congrArg countDuplicate hmismatch
      simp only [hnew, Bool.false_eq_true, if_false]
      by_cases hfull : caps.orders ≤ m.live.length
      · simp only [hfull, if_true]
        exact congrArg countReplacePool hmismatch
      simp only [hfull, if_false]
      by_cases hpx : d.priceCents = kEmptyPrice
      · simp only [hpx, if_true]
        exact congrArg countLevelMissing hmismatch
      simp only [hpx, if_false]
      have hfresh : findIn (without m.live d.orderId) newId = none := findIn_eq_none.mpr fun x hx =>
        findIn_eq_none.mp (by simpa using hnew) x (mem_without.mp hx).1
      let taken := ((m.count fun s => s.countMismatch d.locate locate).remove d).count fun s =>
        s.dropOrder.dropLevel (removalCode m.live d)
      have htaken : taken.stats.events = m.stats.events := by
        show ((m.stats.countMismatch d.locate locate).dropOrder.dropLevel _).events = _
        rw [events_dropLevel, events_dropOrder, hmismatch]
      have hplace : (taken.place caps (replacement d newId qty newPx ts) fun s =>
          { s with orderReplace := s.orderReplace + 1 }).stats.events = _ :=
        place_events hfresh fun _ => rfl
      rw [htaken] at hplace
      refine hplace.trans ?_
      show (if LevelsFull caps (without m.live d.orderId) _ then _ else _) = _
      split <;> rfl

/-- An order event adds what its verdict says to the event counters. -/
theorem step_events (hv : verdict caps m.live c = some v) :
    (m.step caps c).stats.events = v.tally c.accept c.pool m.stats.events := by
  cases c with
  | addOrder locate id bsi qty px ts mpid attributed =>
      cases hv
      exact addOrder_events attributed rfl
  | orderExecuted locate id execQty matchNo =>
      cases hv
      exact reduceOrder_events (countsEvents_accept (.orderExecuted locate id execQty matchNo)) _
  | orderExecutedWithPrice locate id execQty matchNo printable execPx =>
      cases hv
      exact reduceOrder_events (countsEvents_accept
        (.orderExecutedWithPrice locate id execQty matchNo printable execPx)) _
  | orderCancel locate id cancelledQty =>
      cases hv
      exact reduceOrder_events (countsEvents_accept (.orderCancel locate id cancelledQty)) _
  | orderDelete locate id =>
      cases hv
      exact orderDelete_events _
  | orderReplace locate oldId newId newQty newPx ts =>
      cases hv
      exact orderReplace_events
  | _ => cases hv

/-- Other calls leave the event counters alone. -/
theorem step_events_other (hv : verdict caps m.live c = none) :
    (m.step caps c).stats.events = m.stats.events := by
  cases c with
  | stockDirectory locate _ _ _ _ _ _ _ _ _ _ _ _ =>
      simp only [Market.step]
      split <;> rfl
  | crossTrade locate xtype =>
      simp only [Market.step, Market.crossTrade]
      split
      · rfl
      · show (EngineStats.dropBook _ _ _).events = _
        rw [dropBook_eq]
        rfl
  | tradingAction _ _ _ _ => rfl
  | regSho _ _ => rfl
  | nonCrossTrade _ _ _ _ => rfl
  | brokenTrade _ _ => rfl
  | _ => cases hv

/-! ## Accepted events -/

/-- A call is counted as accepted exactly when that is its verdict. -/
theorem accepted_step (hv : verdict caps m.live c = some v) :
    (m.step caps c).stats.accepted = m.stats.accepted + if v = .accepted then 1 else 0 := by
  have hevent : c.isOrderEvent = true := by rw [← verdict_isSome caps m.live, hv]; rfl
  have hevents := congrArg accepted (step_events hv)
  refine hevents.trans ?_
  show _ = m.stats.events.accepted + _
  cases v with
  | accepted => exact accepted_accept hevent _
  | orderPool => cases c <;> rfl
  | _ => rfl

/-! ## Rejections -/

/-- When an add is turned away by a pool. -/
theorem addVerdict_exhausted :
    (addVerdict caps m.live d).exhausted = true ↔ findIn m.live d.orderId = none ∧
      (caps.orders ≤ m.live.length ∨ LevelsFull caps m.live d) := by
  unfold addVerdict
  cases findIn m.live d.orderId with
  | some x => simp [Verdict.exhausted]
  | none =>
      by_cases hfull : caps.orders ≤ m.live.length
      · simp [hfull, Verdict.exhausted]
      · by_cases hlevels : LevelsFull caps m.live d <;> simp [hfull, hlevels, Verdict.exhausted]

/-- No pool turns E, C, X or D away. -/
theorem reduceVerdict_exhausted : (reduceVerdict m.live id).exhausted = false := by
  unfold reduceVerdict
  split
  · rfl
  · split <;> rfl

/-- When a replace is turned away by a pool. -/
theorem replaceVerdict_exhausted :
    (replaceVerdict caps m.live id newId qty newPx ts).exhausted = true ↔
      ∃ d, findIn m.live id = some d ∧ findIn m.live newId = none ∧
        (caps.orders ≤ m.live.length ∨ d.priceCents ≠ kEmptyPrice ∧
          LevelsFull caps (without m.live d.orderId) (replacement d newId qty newPx ts)) := by
  unfold replaceVerdict
  cases findIn m.live id with
  | none => simp [Verdict.exhausted]
  | some d =>
      simp only [Option.some.injEq, exists_eq_left']
      cases findIn m.live newId with
      | some x => simp [Verdict.exhausted]
      | none =>
          by_cases hfull : caps.orders ≤ m.live.length
          · simp [hfull, Verdict.exhausted]
          by_cases hpx : d.priceCents = kEmptyPrice
          · simp [hfull, hpx, Verdict.exhausted]
          by_cases hlevels : LevelsFull caps (without m.live d.orderId)
              (replacement d newId qty newPx ts) <;> simp [hfull, hpx, hlevels, Verdict.exhausted]

/-- When a replace finds an order slot but no level. -/
theorem replaceVerdict_levelPool :
    replaceVerdict caps m.live id newId qty newPx ts = .levelPool ↔
      ∃ d, findIn m.live id = some d ∧ findIn m.live newId = none ∧
        ¬ caps.orders ≤ m.live.length ∧ d.priceCents ≠ kEmptyPrice ∧
        LevelsFull caps (without m.live d.orderId) (replacement d newId qty newPx ts) := by
  unfold replaceVerdict
  cases findIn m.live id with
  | none => simp
  | some d =>
      simp only [Option.some.injEq, exists_eq_left']
      cases findIn m.live newId with
      | some x => simp
      | none =>
          by_cases hfull : caps.orders ≤ m.live.length
          · simp [hfull]
          by_cases hpx : d.priceCents = kEmptyPrice
          · simp [hfull, hpx]
          by_cases hlevels : LevelsFull caps (without m.live d.orderId)
              (replacement d newId qty newPx ts) <;> simp [hfull, hpx, hlevels]

/-- The rejected calls are those with a verdict that a pool is exhausted. -/
theorem rejects_iff : Rejects caps m.live c ↔ ∃ v, verdict caps m.live c = some v ∧
    v.exhausted = true := by
  cases c with
  | addOrder locate id bsi qty px ts mpid attributed =>
      simp only [verdict, Option.some.injEq, exists_eq_left', addVerdict_exhausted, Rejects]
  | orderReplace locate oldId newId newQty newPx ts =>
      simp only [verdict, Option.some.injEq, exists_eq_left', replaceVerdict_exhausted, Rejects]
  | _ => simp [verdict, reduceVerdict_exhausted, Rejects]

/-- A replace that finds no level loses the old order. -/
theorem orderReplace_live_full (hold : findIn m.live id = some d)
    (hnew : findIn m.live newId = none) (horders : ¬ caps.orders ≤ m.live.length)
    (hpx : d.priceCents ≠ kEmptyPrice)
    (hlevels : LevelsFull caps (without m.live d.orderId) (replacement d newId qty newPx ts)) :
    (m.orderReplace caps locate id newId qty newPx ts).live = without m.live d.orderId := by
  have hfresh : findIn (without m.live d.orderId) newId = none :=
    findIn_eq_none.mpr fun x hx => findIn_eq_none.mp hnew x (mem_without.mp hx).1
  simp only [Market.orderReplace, find_eq, count_live, hold, hnew, Option.isSome_none,
    Bool.false_eq_true, horders, hpx, if_false]
  rw [place_rejected]
  · rfl
  · exact hfresh
  · exact hlevels

/-- What a rejected call does to the live orders: nothing, or it loses the order that it was to
replace. -/
theorem step_live_of_rejects (hrejects : Rejects caps m.live c) :
    (m.step caps c).live = m.live ∨ ∃ id, (m.step caps c).live = without m.live id := by
  cases c with
  | addOrder locate id bsi qty px ts mpid attributed =>
      left
      obtain ⟨hfind, hfull⟩ := hrejects
      simp only [Market.step, Market.addOrder, find_eq, hfind, Option.isSome_none,
        Bool.false_eq_true, if_false]
      split
      · rfl
      · next horders =>
          have hlevels := hfull.resolve_left horders
          rw [place_rejected]
          · rfl
          · exact hfind
          · exact hlevels
  | orderReplace locate oldId newId newQty newPx ts =>
      obtain ⟨d, hold, hnew, hfull⟩ := hrejects
      by_cases horders : caps.orders ≤ m.live.length
      · left
        simp only [Market.step, Market.orderReplace, find_eq, count_live, hold, hnew,
          Option.isSome_none, Bool.false_eq_true, horders, if_false, if_true]
      · obtain ⟨hpx, hlevels⟩ := hfull.resolve_left horders
        exact .inr ⟨d.orderId, orderReplace_live_full hold hnew horders hpx hlevels⟩
  | _ => cases hrejects

/-- `pool_exhausted` counts the rejected calls. -/
theorem poolExhausted_step (m : Market) (c : Call) :
    (Rejects caps m.live c ∧ (m.step caps c).stats.poolExhausted = m.stats.poolExhausted + 1) ∨
      (¬ Rejects caps m.live c ∧
        (m.step caps c).stats.poolExhausted = m.stats.poolExhausted) := by
  rw [rejects_iff]
  cases hv : verdict caps m.live c with
  | none =>
      have hevents := congrArg poolExhausted (step_events_other hv)
      exact .inr ⟨by simp, hevents⟩
  | some v =>
      have hevents := congrArg poolExhausted (step_events hv)
      simp only [Option.some.injEq, exists_eq_left']
      have haccept : (c.accept m.stats.events).poolExhausted = m.stats.poolExhausted := by
        cases c with
        | addOrder _ _ _ _ _ _ _ attributed => cases attributed <;> rfl
        | _ => rfl
      have hpool : (c.pool m.stats.events).poolExhausted = m.stats.poolExhausted + 1 := by
        cases c <;> rfl
      cases v with
      | accepted => exact .inr ⟨by simp [Verdict.exhausted], hevents.trans haccept⟩
      | orderPool => exact .inl ⟨rfl, hevents.trans hpool⟩
      | levelPool => exact .inl ⟨rfl, hevents⟩
      | _ => exact .inr ⟨by simp [Verdict.exhausted], hevents⟩

/-- `pool_exhausted` never goes down. -/
theorem poolExhausted_le_step (m : Market) (c : Call) :
    m.stats.poolExhausted ≤ (m.step caps c).stats.poolExhausted := by
  have hstep : (Rejects caps m.live c ∧ _) ∨ _ := poolExhausted_step m c
  rcases hstep with ⟨_, h⟩ | ⟨_, h⟩ <;> omega

end Market
end ItchParser
