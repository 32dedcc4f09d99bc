import ItchParser.Market.Counters

/-!
# What the calls count

What a call counts only depends on the live orders, and it is put together from a few updates of the
statistics. Two markets with the same live orders therefore keep the same live orders and count the
same things, whatever they have counted before. The stock directory is left out, because it counts
the instruments that are new.
-/

namespace ItchParser

open EngineStats

/-- The updates of the statistics that the calls are put together from. -/
inductive Tally : (EngineStats → EngineStats) → Prop where
  | nothing : Tally id
  | comp {f g : EngineStats → EngineStats} : Tally f → Tally g → Tally fun s => g (f s)
  | unknown : Tally countUnknown
  | duplicate : Tally countDuplicate
  | levelMissing : Tally countLevelMissing
  | levelPool : Tally countLevelPoolExhausted
  | addPool : Tally fun s => { s with
      addRejectedPoolExhausted := s.addRejectedPoolExhausted + 1
      poolExhausted := s.poolExhausted + 1 }
  | replacePool : Tally fun s => { s with
      replaceRejectedPoolExhausted := s.replaceRejectedPoolExhausted + 1
      poolExhausted := s.poolExhausted + 1 }
  | mismatch (home locate : StockLocate) : Tally fun s => s.countMismatch home locate
  | raiseOrders : Tally raiseOrders
  | raiseLevels (rc : Int) : Tally fun s => s.raiseLevels rc
  | dropOrder : Tally dropOrder
  | dropLevel (rc : Int) : Tally fun s => s.dropLevel rc
  | dropBook (orders levels : Nat) : Tally fun s => s.dropBook orders levels
  | add : Tally fun s => { s with addOrders := s.addOrders + 1 }
  | addWithMpid : Tally fun s => { s with addOrdersWithMpid := s.addOrdersWithMpid + 1 }
  | executed : Tally fun s => { s with orderExecuted := s.orderExecuted + 1 }
  | executedWithPrice : Tally fun s =>
      { s with orderExecutedWithPrice := s.orderExecutedWithPrice + 1 }
  | cancel : Tally fun s => { s with orderCancel := s.orderCancel + 1 }
  | delete : Tally fun s => { s with orderDelete := s.orderDelete + 1 }
  | replace : Tally fun s => { s with orderReplace := s.orderReplace + 1 }
  | nonCross : Tally fun s => { s with nonCrossTrades := s.nonCrossTrades + 1 }
  | cross : Tally fun s => { s with crossTrades := s.crossTrades + 1 }
  | broken : Tally fun s => { s with brokenTrades := s.brokenTrades + 1 }

/-- No update lowers a peak. -/
theorem Tally.peak_le {f : EngineStats → EngineStats} (h : Tally f) (s : EngineStats) :
    s.peakLiveOrders ≤ (f s).peakLiveOrders ∧ s.peakLiveLevels ≤ (f s).peakLiveLevels := by
  induction h generalizing s with
  | comp _ _ ihf ihg => exact ⟨(ihf s).1.trans (ihg _).1, (ihf s).2.trans (ihg _).2⟩
  | mismatch home locate => simp only [countMismatch_eq, le_refl, and_self]
  | raiseOrders => simp only [raiseOrders_eq, le_max_left, le_refl, and_self]
  | raiseLevels rc =>
      simp only [raiseLevels_eq, le_refl, true_and]
      split
      · exact le_max_left _ _
      · exact le_refl _
  | dropOrder => simp only [dropOrder_eq, le_refl, and_self]
  | dropLevel rc => simp only [dropLevel_eq, le_refl, and_self]
  | _ => exact ⟨le_refl _, le_refl _⟩

/-- A message of the stock directory. -/
def Call.isDirectory : Call → Bool
  | .stockDirectory _ _ _ _ _ _ _ _ _ _ _ _ _ => true
  | _ => false

namespace Market

variable {caps : Capacities} {m m' n n' o o' : Market} {d : OrderData} {c : Call}
  {id : OrderReferenceNumber} {qty : Shares} {locate : StockLocate}
  {accept : EngineStats → EngineStats}

/-- From `m` and `m'` the same live orders and the same counts are reached. -/
structure Parallel (m m' n n' : Market) : Prop where
  live : n.live = n'.live
  stats : ∃ f, Tally f ∧ n.stats = f m.stats ∧ n'.stats = f m'.stats

/-- Two markets before anything is counted. -/
theorem Parallel.refl (h : m.live = m'.live) : Parallel m m' m m' :=
  ⟨h, _, .nothing, rfl, rfl⟩

/-- Counting twice. -/
theorem Parallel.trans (h : Parallel m m' n n') (h' : Parallel n n' o o') : Parallel m m' o o' := by
  obtain ⟨f, hf, hn, hn'⟩ := h.stats
  obtain ⟨g, hg, ho, ho'⟩ := h'.stats
  exact ⟨h'.live, _, hf.comp hg, by rw [ho, hn], by rw [ho', hn']⟩

/-- The same update counts the same. -/
theorem Parallel.count (h : Parallel m m' n n') {f : EngineStats → EngineStats} (hf : Tally f) :
    Parallel m m' (n.count f) (n'.count f) :=
  h.trans ⟨h.live, f, hf, rfl, rfl⟩

/-- The live orders change alike, and nothing is counted. -/
theorem Parallel.edit (h : Parallel m m' n n') (hlive : o.live = o'.live)
    (hstats : o.stats = n.stats) (hstats' : o'.stats = n'.stats) : Parallel m m' o o' :=
  h.trans ⟨hlive, _, .nothing, hstats, hstats'⟩

/-- Removing an order counts nothing. -/
theorem Parallel.remove (h : Parallel m m' n n') : Parallel m m' (n.remove d) (n'.remove d) :=
  h.edit (congrArg (without · d.orderId) h.live) rfl rfl

/-- A partial reduction counts nothing. -/
theorem Parallel.reduce (h : Parallel m m' n n') :
    Parallel m m' (n.reduce id qty) (n'.reduce id qty) :=
  h.edit (congrArg (reducedBy · id qty) h.live) rfl rfl

/-- Clearing a book counts nothing yet. -/
theorem Parallel.clear (h : Parallel m m' n n') :
    Parallel m m' (n.clear locate) (n'.clear locate) :=
  h.edit (congrArg (List.filter _) h.live) rfl rfl

/-- Placing an order counts the same, because the live orders decide. -/
theorem Parallel.place (h : Parallel m m' n n') (haccept : Tally accept) :
    Parallel m m' (n.place caps d accept) (n'.place caps d accept) := by
  have hfind : n'.find d.orderId = n.find d.orderId := by rw [find_eq, find_eq, h.live]
  by_cases hfresh : n.find d.orderId = none
  · by_cases hfull : LevelsFull caps n.live d
    · rw [place_rejected hfresh hfull, place_rejected (hfind.trans hfresh) (h.live ▸ hfull)]
      exact h.count .levelPool
    · rw [place_accepted hfresh hfull, place_accepted (hfind.trans hfresh) (h.live ▸ hfull),
        h.live]
      have happended : Parallel m m' (n.append d hfresh) (n'.append d (hfind.trans hfresh)) :=
        h.edit (congrArg (· ++ [d]) h.live) rfl rfl
      exact happended.count (((Tally.raiseLevels _).comp .raiseOrders).comp haccept)
  · unfold Market.place
    rw [dif_neg hfresh, dif_neg fun he => hfresh (hfind.symm.trans he)]
    exact h

/-- A and F count the same. -/
theorem parallel_addOrder (h : m.live = m'.live) (attributed : Bool) :
    Parallel m m' (m.addOrder caps d attributed) (m'.addOrder caps d attributed) := by
  have hknow : Parallel m m' (m.know d.locate) (m'.know d.locate) :=
    (Parallel.refl h).edit h rfl rfl
  unfold Market.addOrder
  rw [find_eq, find_eq, h]
  split
  · exact (Parallel.refl h).count .duplicate
  · show Parallel m m' (if caps.orders ≤ m.live.length then _ else _)
      (if caps.orders ≤ m'.live.length then _ else _)
    rw [h]
    split
    · exact hknow.count .addPool
    · refine hknow.place ?_
      cases attributed with
      | false => exact .add
      | true => exact .addWithMpid

/-- E, C and X count the same. -/
theorem parallel_reduceOrder (h : m.live = m'.live) (haccept : Tally accept) :
    Parallel m m' (m.reduceOrder locate id qty accept) (m'.reduceOrder locate id qty accept) := by
  unfold Market.reduceOrder
  rw [find_eq, find_eq, h]
  cases findIn m'.live id with
  | none => exact (Parallel.refl h).count .unknown
  | some d =>
      have hcounted := (Parallel.refl h).count (.mismatch d.locate locate)
      simp only [count_live, h]
      split
      · exact hcounted.count .levelMissing
      · split
        · exact hcounted.remove.count ((haccept.comp .dropOrder).comp (.dropLevel _))
        · exact hcounted.reduce.count haccept

/-- D counts the same. -/
theorem parallel_orderDelete (h : m.live = m'.live) :
    Parallel m m' (m.orderDelete locate id) (m'.orderDelete locate id) := by
  unfold Market.orderDelete
  rw [find_eq, find_eq, h]
  cases findIn m'.live id with
  | none => exact (Parallel.refl h).count .unknown
  | some d =>
      have hcounted := (Parallel.refl h).count (.mismatch d.locate locate)
      simp only [count_live, h]
      split
      · exact hcounted.count .levelMissing
      · exact hcounted.remove.count ((Tally.dropOrder.comp (.dropLevel _)).comp .delete)

/-- U counts the same. -/
theorem parallel_orderReplace {newId : OrderReferenceNumber} {newPx : Price} {ts : Timestamp}
    (h : m.live = m'.live) :
    Parallel m m' (m.orderReplace caps locate id newId qty newPx ts)
      (m'.orderReplace caps locate id newId qty newPx ts) := by
  unfold Market.orderReplace
  rw [find_eq, find_eq, h]
  cases findIn m'.live id with
  | none => exact (Parallel.refl h).count .unknown
  | some d =>
      have hcounted := (Parallel.refl h).count (.mismatch d.locate locate)
      simp only [count_live, find_eq, h]
      by_cases hnew : (findIn m'.live newId).isSome
      · simp only [hnew, if_true]
        exact hcounted.count .duplicate
      by_cases hfull : caps.orders ≤ m'.live.length
      · simp only [hnew, hfull, if_true, if_false, Bool.false_eq_true]
        exact hcounted.count .replacePool
      by_cases hpx : d.priceCents = OrderBook.kEmptyPrice
      · simp only [hnew, hfull, hpx, if_true, if_false, Bool.false_eq_true]
        exact hcounted.count .levelMissing
      · simp only [hnew, hfull, hpx, if_false, Bool.false_eq_true]
        exact (hcounted.remove.count (Tally.dropOrder.comp (.dropLevel _))).place .replace

/-- Q counts the same. -/
theorem parallel_crossTrade {xtype : CrossType} (h : m.live = m'.live) :
    Parallel m m' (m.crossTrade locate xtype) (m'.crossTrade locate xtype) := by
  have hcounted := (Parallel.refl h).count .cross
  unfold Market.crossTrade
  simp only [count_live, h]
  split
  · exact hcounted
  · exact hcounted.clear.count (.dropBook _ _)

/-- Markets with the same live orders stay alike. -/
theorem parallel_step (h : m.live = m'.live) (hc : c.isDirectory = false) :
    Parallel m m' (m.step caps c) (m'.step caps c) := by
  cases c with
  | stockDirectory _ _ _ _ _ _ _ _ _ _ _ _ _ => cases hc
  | tradingAction _ _ _ _ => exact .refl h
  | regSho _ _ => exact .refl h
  | addOrder locate id bsi qty px ts mpid attributed => exact parallel_addOrder h attributed
  | orderExecuted _ _ _ _ => exact parallel_reduceOrder h .executed
  | orderExecutedWithPrice _ _ _ _ _ _ => exact parallel_reduceOrder h .executedWithPrice
  | orderCancel _ _ _ => exact parallel_reduceOrder h .cancel
  | orderDelete _ _ => exact parallel_orderDelete h
  | orderReplace _ _ _ _ _ _ => exact parallel_orderReplace h
  | nonCrossTrade _ _ _ _ => exact (Parallel.refl h).count .nonCross
  | crossTrade _ _ => exact parallel_crossTrade h
  | brokenTrade _ _ => exact (Parallel.refl h).count .broken

/-- No call lowers a peak. -/
theorem peak_le_step (m : Market) (c : Call) :
    m.stats.peakLiveOrders ≤ (m.step caps c).stats.peakLiveOrders ∧
      m.stats.peakLiveLevels ≤ (m.step caps c).stats.peakLiveLevels := by
  cases hc : c.isDirectory with
  | true =>
      cases c with
      | stockDirectory locate _ _ _ _ _ _ _ _ _ _ _ _ =>
          simp only [Market.step]
          split <;> exact ⟨le_refl _, le_refl _⟩
      | _ => cases hc
  | false =>
      have hparallel : Parallel m m (m.step caps c) _ := parallel_step rfl hc
      obtain ⟨f, hf, hstats, -⟩ := hparallel.stats
      rw [hstats]
      exact hf.peak_le _

end Market
end ItchParser
