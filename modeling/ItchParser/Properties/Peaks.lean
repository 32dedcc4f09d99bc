import ItchParser.Engine.Runs
import ItchParser.Market.Runs
import ItchParser.Properties.Conservation

/-!
# What the peaks say

The two peaks of the report are the largest numbers of slots of the two pools that were in use
behind any call of the run. A replace holds one order slot more while it runs; the peak does not
count it.
-/

namespace ItchParser

open Machine MatchingEngine

namespace Market

open EngineStats

variable {caps : Capacities} {m m' : Market} {d : OrderData} {c : Call} {cs : List Call}
  {id newId : OrderReferenceNumber} {qty : Shares} {px : Price} {ts : Timestamp}
  {locate : StockLocate} {accept : EngineStats → EngineStats}

/-- On the way from `m` to `m'` nothing has become live. -/
structure Settles (m m' : Market) : Prop where
  orders : m'.stats.liveOrders ≤ m.stats.liveOrders
  levels : m'.stats.liveLevels ≤ m.stats.liveLevels
  peakOrders : m'.stats.peakLiveOrders = m.stats.peakLiveOrders
  peakLevels : m'.stats.peakLiveLevels = m.stats.peakLiveLevels

/-- On the way from `m` to `m'` the peaks have followed what is live. -/
structure Rises (m m' : Market) : Prop where
  orders : m'.stats.peakLiveOrders = max m.stats.peakLiveOrders m'.stats.liveOrders
  levels : m'.stats.peakLiveLevels = max m.stats.peakLiveLevels m'.stats.liveLevels

/-- Nothing has happened. -/
theorem Settles.refl (m : Market) : Settles m m := ⟨le_refl _, le_refl _, rfl, rfl⟩

/-- Counting makes nothing live. -/
theorem Settles.count (h : Settles m m') {f : EngineStats → EngineStats} (hf : Neutral f) :
    Settles m (m'.count f) := by
  obtain ⟨horders, hlevels, hpeakOrders, hpeakLevels⟩ := hf m'.stats
  exact ⟨horders.trans_le h.orders, hlevels.trans_le h.levels, hpeakOrders.trans h.peakOrders,
    hpeakLevels.trans h.peakLevels⟩

/-- An order that leaves makes nothing live. -/
theorem Settles.dropOrder (h : Settles m m') (rc : Int) :
    Settles m ((m'.remove d).count fun s => s.dropOrder.dropLevel rc) := by
  obtain ⟨horders, hlevels, hpeakOrders, hpeakLevels⟩ := h
  refine ⟨?_, ?_, ?_, ?_⟩ <;>
    simp only [Market.count, Market.remove, dropLevel_eq, dropOrder_eq] <;> omega

/-- A reduction makes nothing live. -/
theorem Settles.reduce (h : Settles m m') : Settles m (m'.reduce id qty) :=
  ⟨h.orders, h.levels, h.peakOrders, h.peakLevels⟩

/-- A cleared book makes nothing live. -/
theorem Settles.dropBook (h : Settles m m') (orders levels : Nat) :
    Settles m ((m'.clear locate).count fun s => s.dropBook orders levels) := by
  obtain ⟨horders, hlevels, hpeakOrders, hpeakLevels⟩ := h
  refine ⟨?_, ?_, ?_, ?_⟩ <;> simp only [Market.count, Market.clear, dropBook_eq] <;> omega

/-- Where nothing becomes live the peaks may stay. -/
theorem Settles.rises (h : Settles m m') (hcounts : m.Counts) : Rises m m' :=
  ⟨by rw [h.peakOrders, max_eq_left (h.orders.trans hcounts.peakOrders)],
    by rw [h.peakLevels, max_eq_left (h.levels.trans hcounts.peakLevels)]⟩

/-- Counting lets the peaks stay. -/
theorem Settles.count_rises (h : Settles m m') (hcounts : m.Counts) {f : EngineStats → EngineStats}
    (hf : Neutral f) : Rises m (m'.count f) :=
  (h.count hf).rises hcounts

/-- An order is placed after everything else that the call does. -/
theorem Settles.place (h : Settles m m') (hcounts : m.Counts) (haccept : Neutral accept) :
    Rises m (m'.place caps d accept) := by
  by_cases hfresh : m'.find d.orderId = none
  · by_cases hfull : LevelsFull caps m'.live d
    · rw [place_rejected hfresh hfull]
      exact h.count_rises hcounts fun _ => ⟨rfl, rfl, rfl, rfl⟩
    · rw [place_accepted hfresh hfull]
      obtain ⟨horders, hlevels, hpeakOrders, hpeakLevels⟩ :=
        haccept (m'.stats.raiseLevels (if opensFor m'.live d then 2 else 1)).raiseOrders
      have hlow := h.levels.trans hcounts.peakLevels
      refine ⟨hpeakOrders.trans (.trans ?_ (congrArg (max _) horders.symm)),
        hpeakLevels.trans (.trans ?_ (congrArg (max _) hlevels.symm))⟩
      · simp only [raiseOrders_eq, raiseLevels_eq, h.peakOrders]
      · cases opensFor m'.live d <;> simp [raiseOrders_eq, raiseLevels_eq, h.peakLevels, hlow]
  · unfold Market.place
    rw [dif_neg hfresh]
    exact h.rises hcounts

/-! ## The calls -/

/-- E, C and X let the peaks stay. -/
theorem rises_reduceOrder (hcounts : m.Counts) (haccept : Neutral accept) :
    Rises m (m.reduceOrder locate id qty accept) := by
  refine Settles.rises ?_ hcounts
  unfold Market.reduceOrder
  cases m.find id with
  | none => exact (Settles.refl m).count fun _ => ⟨rfl, rfl, rfl, rfl⟩
  | some d =>
      have hcounted := (Settles.refl m).count (neutral_countMismatch d.locate locate)
      simp only
      split
      · exact hcounted.count fun _ => ⟨rfl, rfl, rfl, rfl⟩
      · split
        · exact (hcounted.count haccept).dropOrder _
        · exact hcounted.reduce.count haccept

/-- D makes nothing live. -/
theorem settles_orderDelete : Settles m (m.orderDelete locate id) := by
  unfold Market.orderDelete
  cases m.find id with
  | none => exact (Settles.refl m).count fun _ => ⟨rfl, rfl, rfl, rfl⟩
  | some d =>
      have hcounted := (Settles.refl m).count (neutral_countMismatch d.locate locate)
      simp only
      split
      · exact hcounted.count fun _ => ⟨rfl, rfl, rfl, rfl⟩
      · exact (hcounted.dropOrder _).count
          (f := fun s => { s with orderDelete := s.orderDelete + 1 })
          fun _ => ⟨rfl, rfl, rfl, rfl⟩

/-- Q makes nothing live. -/
theorem settles_crossTrade {xtype : CrossType} : Settles m (m.crossTrade locate xtype) := by
  have hcounted : Settles m (m.count fun s => { s with crossTrades := s.crossTrades + 1 }) :=
    (Settles.refl m).count fun _ => ⟨rfl, rfl, rfl, rfl⟩
  unfold Market.crossTrade
  simp only
  split
  · exact hcounted
  · exact hcounted.dropBook _ _

/-- The peaks follow A and F. -/
theorem rises_addOrder (hcounts : m.Counts) (attributed : Bool) :
    Rises m (m.addOrder caps d attributed) := by
  have hknow : Settles m (m.know d.locate) := ⟨le_refl _, le_refl _, rfl, rfl⟩
  unfold Market.addOrder
  split
  · exact (Settles.refl m).count_rises hcounts fun _ => ⟨rfl, rfl, rfl, rfl⟩
  · simp only
    split
    · exact hknow.count_rises hcounts fun _ => ⟨rfl, rfl, rfl, rfl⟩
    · refine hknow.place hcounts fun s => ?_
      split <;> exact ⟨rfl, rfl, rfl, rfl⟩

/-- The peaks follow U. -/
theorem rises_orderReplace (hcounts : m.Counts) :
    Rises m (m.orderReplace caps locate id newId qty px ts) := by
  unfold Market.orderReplace
  cases m.find id with
  | none => exact (Settles.refl m).count_rises hcounts fun _ => ⟨rfl, rfl, rfl, rfl⟩
  | some d =>
      have hcounted := (Settles.refl m).count (neutral_countMismatch d.locate locate)
      simp only
      split
      · exact hcounted.count_rises hcounts fun _ => ⟨rfl, rfl, rfl, rfl⟩
      · split
        · exact hcounted.count_rises hcounts fun _ => ⟨rfl, rfl, rfl, rfl⟩
        · split
          · exact hcounted.count_rises hcounts fun _ => ⟨rfl, rfl, rfl, rfl⟩
          · -- the old order is off the book before the new one raises the counters
            exact (hcounted.dropOrder _).place hcounts fun _ => ⟨rfl, rfl, rfl, rfl⟩

/-- With every call the peaks follow what is live. -/
theorem rises_step (hcounts : m.Counts) (c : Call) : Rises m (m.step caps c) := by
  cases c with
  | stockDirectory locate _ _ _ _ _ _ _ _ _ _ _ _ =>
      simp only [Market.step]
      split
      · exact ⟨(max_eq_left hcounts.peakOrders).symm, (max_eq_left hcounts.peakLevels).symm⟩
      · exact ⟨(max_eq_left hcounts.peakOrders).symm, (max_eq_left hcounts.peakLevels).symm⟩
  | tradingAction _ _ _ _ => exact (Settles.refl m).rises hcounts
  | regSho _ _ => exact (Settles.refl m).rises hcounts
  | addOrder locate id bsi qty px ts mpid attributed => exact rises_addOrder hcounts attributed
  | orderExecuted locate id execQty matchNo =>
      exact rises_reduceOrder hcounts fun _ => ⟨rfl, rfl, rfl, rfl⟩
  | orderExecutedWithPrice locate id execQty matchNo printable execPx =>
      exact rises_reduceOrder hcounts fun _ => ⟨rfl, rfl, rfl, rfl⟩
  | orderCancel locate id cancelledQty =>
      exact rises_reduceOrder hcounts fun _ => ⟨rfl, rfl, rfl, rfl⟩
  | orderDelete locate id => exact settles_orderDelete.rises hcounts
  | orderReplace locate oldId newId newQty newPx ts => exact rises_orderReplace hcounts
  | nonCrossTrade _ _ _ _ =>
      exact (Settles.refl m).count_rises hcounts
        (f := fun s => { s with nonCrossTrades := s.nonCrossTrades + 1 })
        fun _ => ⟨rfl, rfl, rfl, rfl⟩
  | crossTrade locate xtype => exact settles_crossTrade.rises hcounts
  | brokenTrade _ _ =>
      exact (Settles.refl m).count_rises hcounts
        (f := fun s => { s with brokenTrades := s.brokenTrades + 1 })
        fun _ => ⟨rfl, rfl, rfl, rfl⟩

/-- The peaks are the greatest values of the live counters. -/
theorem peaks_after (caps : Capacities) (cs : List Call) :
    IsGreatest {x | ∃ pre, pre <+: cs ∧ (after caps pre).stats.liveOrders = x}
        (after caps cs).stats.peakLiveOrders ∧
      IsGreatest {x | ∃ pre, pre <+: cs ∧ (after caps pre).stats.liveLevels = x}
        (after caps cs).stats.peakLiveLevels := by
  have hstep : ∀ pre c, Rises (after caps pre) ((after caps pre).step caps c) := fun pre c =>
    rises_step (counts_after caps pre) c
  exact ⟨isGreatest_run (fun m : Market => m.stats.liveOrders) (fun m => m.stats.peakLiveOrders)
      rfl cs fun pre c _ => (hstep pre c).orders,
    isGreatest_run (fun m : Market => m.stats.liveLevels) (fun m => m.stats.peakLiveLevels)
      rfl cs fun pre c _ => (hstep pre c).levels⟩

end Market

namespace MatchingEngine

/-- The slots of the order pool that are in use. -/
def ordersInUse (e : MatchingEngine) : Nat :=
  e.orderPool.capacity.toNat - e.orderPool.freeCount

/-- The slots of the level pool that are in use. -/
def levelsInUse (e : MatchingEngine) : Nat :=
  e.levelPool.capacity.toNat - e.levelPool.freeCount

/-- The peaks are the greatest numbers of slots that were in use after any call. -/
theorem peaks_attained (oc lc : UInt64) (cs : List Call) (hcap : oc.toNat < 4294967296)
    (hroomy : ∀ pre, pre <+: cs → (after oc lc pre).Roomy) :
    IsGreatest {n | ∃ pre, pre <+: cs ∧ (after oc lc pre).ordersInUse = n}
        (after oc lc cs).stats.peakLiveOrders ∧
      IsGreatest {n | ∃ pre, pre <+: cs ∧ (after oc lc pre).levelsInUse = n}
        (after oc lc cs).stats.peakLiveLevels := by
  have hrefines : ∀ pre, pre <+: cs → (after oc lc pre).Refines ⟨oc.toNat, lc.toNat⟩
      (Market.after ⟨oc.toNat, lc.toNat⟩ pre) := fun pre hpre =>
    after_refines oc lc pre hcap fun p hp => hroomy p (hp.trans hpre)
  have hconserved : ∀ pre, pre <+: cs → (after oc lc pre).Conserved := fun pre hpre =>
    (hrefines pre hpre).conserved (Market.counts_after _ pre)
  have horders : ∀ pre, pre <+: cs → (after oc lc pre).ordersInUse =
      (Market.after ⟨oc.toNat, lc.toNat⟩ pre).stats.liveOrders := fun pre hpre => by
    rw [← (hrefines pre hpre).stats_eq, ordersInUse, ← (hconserved pre hpre).orders_pool,
      Nat.add_sub_cancel]
  have hlevels : ∀ pre, pre <+: cs → (after oc lc pre).levelsInUse =
      (Market.after ⟨oc.toNat, lc.toNat⟩ pre).stats.liveLevels := fun pre hpre => by
    rw [← (hrefines pre hpre).stats_eq, levelsInUse, ← (hconserved pre hpre).levels_pool,
      Nat.add_sub_cancel]
  have hpeaks := Market.peaks_after ⟨oc.toNat, lc.toNat⟩ cs
  rw [(hrefines cs (List.prefix_refl _)).stats_eq]
  constructor
  · convert hpeaks.1 using 3 with n
    exact exists_congr fun pre => and_congr_right fun hpre => by rw [horders pre hpre]
  · convert hpeaks.2 using 3 with n
    exact exists_congr fun pre => and_congr_right fun hpre => by rw [hlevels pre hpre]

/-- The replace takes a third slot while it runs. -/
def replacing : List Call :=
  [.addOrder 1 10 (ascii 'B') 300 1000000 1 MPID.blank false,
    .addOrder 1 11 (ascii 'S') 200 1010000 2 MPID.blank false,
    .orderReplace 1 11 12 200 1020000 3, .orderDelete 1 10]

/-- A session with a replace at the peak. -/
theorem peaks_attained_sample :
    IsGreatest {n | ∃ pre, pre <+: replacing ∧ (after 3 3 pre).ordersInUse = n}
        (after 3 3 replacing).stats.peakLiveOrders ∧
      IsGreatest {n | ∃ pre, pre <+: replacing ∧ (after 3 3 pre).levelsInUse = n}
        (after 3 3 replacing).stats.peakLiveLevels :=
  peaks_attained 3 3 replacing (by decide) fun cs _ => after_roomy 3 3 cs (by decide) (by decide)

example : (after 3 3 replacing).stats.peakLiveOrders = 2 := by decide +kernel

end MatchingEngine
end ItchParser
