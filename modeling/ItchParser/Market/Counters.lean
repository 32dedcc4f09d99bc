import ItchParser.Market.Levels
import ItchParser.Market.Live

/-!
# The counters of a market

The live counters are what their names say, and the peaks are never below them. The guards
`if (live > 0)` of the decrements never matter.
-/

namespace ItchParser

open OrderBook

namespace EngineStats

variable (s : EngineStats) (rc : Int) (orders levels : Nat) (home locate : StockLocate)

/-! ## The updates as plain field updates -/

/-- A new order, with the peak as a maximum. -/
theorem raiseOrders_eq : s.raiseOrders = { s with
    liveOrders := s.liveOrders + 1
    peakLiveOrders := max s.peakLiveOrders (s.liveOrders + 1) } := by
  unfold raiseOrders
  simp only
  split
  · rw [Nat.max_eq_right (by omega)]
  · rw [Nat.max_eq_left (by omega)]

/-- A new level, with the peak as a maximum. -/
theorem raiseLevels_eq : s.raiseLevels rc = { s with
    liveLevels := s.liveLevels + if rc = 2 then 1 else 0
    peakLiveLevels := if rc = 2 then max s.peakLiveLevels (s.liveLevels + 1)
      else s.peakLiveLevels } := by
  unfold raiseLevels
  by_cases hrc : rc = 2
  · simp only [hrc, if_true]
    split
    · rw [Nat.max_eq_right (by omega)]
    · rw [Nat.max_eq_left (by omega)]
  · simp only [hrc, if_false, Nat.add_zero]

/-- The guard makes no difference to the subtraction. -/
theorem dropOrder_eq : s.dropOrder = { s with liveOrders := s.liveOrders - 1 } := by
  unfold dropOrder
  split
  · rfl
  · next h =>
      obtain ⟨⟩ := s
      simp only [gt_iff_lt, Nat.not_lt, Nat.le_zero] at h
      simp only [h, Nat.zero_sub]

/-- The guard makes no difference to the subtraction. -/
theorem dropLevel_eq : s.dropLevel rc =
    { s with liveLevels := s.liveLevels - if rc = 2 then 1 else 0 } := by
  unfold dropLevel
  by_cases hrc : rc = 2
  · simp only [hrc, true_and, if_true]
    split
    · rfl
    · next h =>
        obtain ⟨⟩ := s
        simp only [gt_iff_lt, Nat.not_lt, Nat.le_zero] at h
        simp only [h, Nat.zero_sub]
  · simp only [hrc, false_and, if_false, Nat.sub_zero]

/-- The guards make no difference to the subtractions. -/
theorem dropBook_eq : s.dropBook orders levels = { s with
    liveOrders := s.liveOrders - orders, liveLevels := s.liveLevels - levels } := by
  unfold dropBook
  have hsub : ∀ a b : Nat, (if a ≥ b then a - b else 0) = a - b := by
    intro a b
    split <;> omega
  rw [hsub, hsub]

/-- A mismatch adds one. -/
theorem countMismatch_eq : s.countMismatch home locate =
    { s with locateMismatches := s.locateMismatches + if home ≠ locate then 1 else 0 } := by
  unfold countMismatch
  split <;> rfl

end EngineStats

namespace Market

open EngineStats

/-- The live counters count the live orders and the levels, and the peaks are not below them. -/
structure Counts (m : Market) : Prop where
  liveOrders : m.stats.liveOrders = m.live.length
  liveLevels : m.stats.liveLevels = levelCount m.live
  peakOrders : m.stats.liveOrders ≤ m.stats.peakLiveOrders
  peakLevels : m.stats.liveLevels ≤ m.stats.peakLiveLevels

variable {caps : Capacities} {m : Market} {d : OrderData} {c : Call} {id : OrderReferenceNumber}
  {qty : Shares} {locate : StockLocate} {accept : EngineStats → EngineStats}

/-- An update of the statistics that leaves the live counters and their peaks alone. -/
def Neutral (f : EngineStats → EngineStats) : Prop :=
  ∀ s, (f s).liveOrders = s.liveOrders ∧ (f s).liveLevels = s.liveLevels ∧
    (f s).peakLiveOrders = s.peakLiveOrders ∧ (f s).peakLiveLevels = s.peakLiveLevels

/-- A neutral update keeps the counters right. -/
theorem Counts.count (h : m.Counts) {f : EngineStats → EngineStats} (hf : Neutral f) :
    (m.count f).Counts := by
  obtain ⟨h₁, h₂, h₃, h₄⟩ := hf m.stats
  refine ⟨h₁.trans h.liveOrders, h₂.trans h.liveLevels, ?_, ?_⟩
  · show (f m.stats).liveOrders ≤ (f m.stats).peakLiveOrders
    rw [h₁, h₃]
    exact h.peakOrders
  · show (f m.stats).liveLevels ≤ (f m.stats).peakLiveLevels
    rw [h₂, h₄]
    exact h.peakLevels

/-- The check of the locate is neutral. -/
theorem neutral_countMismatch (home locate : StockLocate) :
    Neutral fun s => s.countMismatch home locate := fun s => by
  simp only [countMismatch_eq, and_self]

/-- Placing an order keeps the counters right, whether it finds a level or not. -/
theorem Counts.place (h : m.Counts) (haccept : Neutral accept) :
    (m.place caps d accept).Counts := by
  by_cases hfresh : m.find d.orderId = none
  · by_cases hfull : LevelsFull caps m.live d
    · rw [place_rejected hfresh hfull]
      exact h.count fun _ => ⟨rfl, rfl, rfl, rfl⟩
    · rw [place_accepted hfresh hfull]
      obtain ⟨h₁, h₂, h₃, h₄⟩ :=
        haccept (m.stats.raiseLevels (if opensFor m.live d then 2 else 1)).raiseOrders
      have hpeak := h.peakLevels
      refine ⟨h₁.trans ?_, h₂.trans ?_, h₁.trans_le (le_of_le_of_eq ?_ h₃.symm),
        h₂.trans_le (le_of_le_of_eq ?_ h₄.symm)⟩
      · show _ = (m.live ++ [d]).length
        simp only [raiseOrders_eq, raiseLevels_eq, h.liveOrders, List.length_append,
          List.length_singleton]
      · show _ = levelCount (m.live ++ [d])
        rw [levelCount_append, ← h.liveLevels]
        cases opensFor m.live d <;> simp [raiseOrders_eq, raiseLevels_eq]
      · simp only [raiseOrders_eq, raiseLevels_eq]
        exact Nat.le_max_right _ _
      · cases opensFor m.live d <;> simp [raiseOrders_eq, raiseLevels_eq, hpeak]
  · unfold Market.place
    rw [dif_neg hfresh]
    exact h

/-- Taking an order off, with its counters. -/
theorem Counts.remove (h : m.Counts) (hd : d ∈ m.live) :
    ((m.remove d).count fun s => s.dropOrder.dropLevel (removalCode m.live d)).Counts := by
  have hlen := length_without m.distinct hd
  have hlevels := levelCount_without m.distinct hd
  have horders := h.liveOrders
  have hcount := h.liveLevels
  have hpeak := h.peakOrders
  have hpeak' := h.peakLevels
  refine ⟨?_, ?_, ?_, ?_⟩
  · show (m.stats.dropOrder.dropLevel _).liveOrders = (without m.live d.orderId).length
    simp only [dropLevel_eq, dropOrder_eq]
    omega
  · show (m.stats.dropOrder.dropLevel _).liveLevels = levelCount (without m.live d.orderId)
    simp only [dropLevel_eq, dropOrder_eq]
    omega
  · show (m.stats.dropOrder.dropLevel _).liveOrders ≤ (m.stats.dropOrder.dropLevel _).peakLiveOrders
    simp only [dropLevel_eq, dropOrder_eq]
    omega
  · show (m.stats.dropOrder.dropLevel _).liveLevels ≤ (m.stats.dropOrder.dropLevel _).peakLiveLevels
    simp only [dropLevel_eq, dropOrder_eq]
    omega

/-- A partial reduction keeps the counters right. -/
theorem Counts.reduce (h : m.Counts) : (m.reduce id qty).Counts := by
  refine ⟨h.liveOrders.trans ?_, h.liveLevels.trans ?_, h.peakOrders, h.peakLevels⟩
  · exact (List.length_map _).symm
  · exact levelCount_reducedBy.symm

/-- E, C and X keep the counters right. -/
theorem Counts.reduceOrder (h : m.Counts) (haccept : Neutral accept) :
    (m.reduceOrder locate id qty accept).Counts := by
  unfold Market.reduceOrder
  cases hfind : m.find id with
  | none => exact h.count fun _ => ⟨rfl, rfl, rfl, rfl⟩
  | some d =>
      obtain ⟨hd, rfl⟩ := find_eq_some.mp hfind
      have hcounted := h.count (neutral_countMismatch d.locate locate)
      simp only
      split
      · exact hcounted.count fun _ => ⟨rfl, rfl, rfl, rfl⟩
      · split
        · exact (hcounted.count haccept).remove hd
        · exact hcounted.reduce.count haccept

/-- D keeps the counters right. -/
theorem Counts.orderDelete (h : m.Counts) : (m.orderDelete locate id).Counts := by
  unfold Market.orderDelete
  cases hfind : m.find id with
  | none => exact h.count fun _ => ⟨rfl, rfl, rfl, rfl⟩
  | some d =>
      obtain ⟨hd, rfl⟩ := find_eq_some.mp hfind
      have hcounted := h.count (neutral_countMismatch d.locate locate)
      simp only
      split
      · exact hcounted.count fun _ => ⟨rfl, rfl, rfl, rfl⟩
      · exact (hcounted.remove hd).count (f := fun s => { s with orderDelete := s.orderDelete + 1 })
          fun _ => ⟨rfl, rfl, rfl, rfl⟩

/-- U keeps the counters right. -/
theorem Counts.orderReplace {newId : OrderReferenceNumber} {newPx : Price} {ts : Timestamp}
    (h : m.Counts) : (m.orderReplace caps locate id newId qty newPx ts).Counts := by
  unfold Market.orderReplace
  cases hfind : m.find id with
  | none => exact h.count fun _ => ⟨rfl, rfl, rfl, rfl⟩
  | some d =>
      obtain ⟨hd, rfl⟩ := find_eq_some.mp hfind
      have hcounted := h.count (neutral_countMismatch d.locate locate)
      simp only
      split
      · exact hcounted.count fun _ => ⟨rfl, rfl, rfl, rfl⟩
      · split
        · exact hcounted.count fun _ => ⟨rfl, rfl, rfl, rfl⟩
        · split
          · exact hcounted.count fun _ => ⟨rfl, rfl, rfl, rfl⟩
          · exact (hcounted.remove hd).place fun _ => ⟨rfl, rfl, rfl, rfl⟩

/-- A and F keep the counters right. -/
theorem Counts.addOrder (h : m.Counts) (attributed : Bool) :
    (m.addOrder caps d attributed).Counts := by
  have hknow : (m.know d.locate).Counts := ⟨h.liveOrders, h.liveLevels, h.peakOrders, h.peakLevels⟩
  unfold Market.addOrder
  split
  · exact h.count fun _ => ⟨rfl, rfl, rfl, rfl⟩
  · simp only
    split
    · exact hknow.count fun _ => ⟨rfl, rfl, rfl, rfl⟩
    · refine hknow.place fun s => ?_
      split <;> exact ⟨rfl, rfl, rfl, rfl⟩

/-- Q keeps the counters right. -/
theorem Counts.crossTrade {xtype : CrossType} (h : m.Counts) :
    (m.crossTrade locate xtype).Counts := by
  have hcounted : (m.count fun s => { s with crossTrades := s.crossTrades + 1 }).Counts :=
    h.count fun _ => ⟨rfl, rfl, rfl, rfl⟩
  unfold Market.crossTrade
  simp only
  split
  · exact hcounted
  · have hsplit := (List.filter_append_perm (fun d => decide (d.locate = locate)) m.live).length_eq
    have hrest : (m.live.filter fun d => !decide (d.locate = locate)) =
        m.live.filter fun d => d.locate ≠ locate :=
      List.filter_congr fun d _ => by simp
    have hlevels := levelCount_clear m.live locate
    have horders := h.liveOrders
    have hcount := h.liveLevels
    have hpeak := h.peakOrders
    have hpeak' := h.peakLevels
    rw [List.length_append, hrest] at hsplit
    refine ⟨?_, ?_, ?_, ?_⟩ <;>
      simp only [Market.count, Market.clear, dropBook_eq] <;> omega

/-- Every call keeps the counters right. -/
theorem Counts.step (h : m.Counts) (c : Call) : (m.step caps c).Counts := by
  have hknow : ∀ l, (m.know l).Counts := fun l =>
    ⟨h.liveOrders, h.liveLevels, h.peakOrders, h.peakLevels⟩
  cases c with
  | stockDirectory locate _ _ _ _ _ _ _ _ _ _ _ _ =>
      simp only [Market.step]
      split
      · exact (hknow locate).count fun _ => ⟨rfl, rfl, rfl, rfl⟩
      · exact hknow locate
  | tradingAction _ _ _ _ => exact h
  | regSho _ _ => exact h
  | addOrder locate id bsi qty px ts mpid attributed => exact h.addOrder attributed
  | orderExecuted locate id execQty matchNo => exact h.reduceOrder fun _ => ⟨rfl, rfl, rfl, rfl⟩
  | orderExecutedWithPrice locate id execQty matchNo printable execPx =>
      exact h.reduceOrder fun _ => ⟨rfl, rfl, rfl, rfl⟩
  | orderCancel locate id cancelledQty => exact h.reduceOrder fun _ => ⟨rfl, rfl, rfl, rfl⟩
  | orderDelete locate id => exact h.orderDelete
  | orderReplace locate oldId newId newQty newPx ts => exact h.orderReplace
  | nonCrossTrade _ _ _ _ =>
      exact h.count (f := fun s => { s with nonCrossTrades := s.nonCrossTrades + 1 })
        fun _ => ⟨rfl, rfl, rfl, rfl⟩
  | crossTrade locate xtype => exact h.crossTrade
  | brokenTrade _ _ =>
      exact h.count (f := fun s => { s with brokenTrades := s.brokenTrades + 1 })
        fun _ => ⟨rfl, rfl, rfl, rfl⟩

/-- The counters start right. -/
theorem empty_counts : Market.empty.Counts := by
  refine ⟨rfl, ?_, Nat.le_refl _, Nat.le_refl _⟩
  show 0 = levelCount []
  have hnone : ∀ l, levelsAt [] l = 0 := fun l => levelsAt_of_other (by simp)
  simp [levelCount, hnone]

end Market
end ItchParser
