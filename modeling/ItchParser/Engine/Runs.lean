import ItchParser.Engine.Views
import ItchParser.Lib.Machine

/-!
# Runs of the engine

Every call refines the step of the market, so a run of a fresh engine refines the run of the empty
market. The one condition is that the market fits before each call. It does when no side of a book
ever holds more than 8192 levels and the order pool is smaller than `2^32`.
-/

namespace ItchParser

open Ladder OrderBook Market Machine

namespace MatchingEngine

variable {e : MatchingEngine} {caps : Capacities} {m : Market}

/-- One call is one step of the market. -/
theorem step_refines (h : e.Refines caps m) (hfit : m.Fits) (c : Call) :
    (e.step c).Refines caps (m.step caps c) := by
  cases c with
  | stockDirectory locate symbol mc fsi rls rlo auth ssti ipo luld etp elf inv =>
      exact h.onStockDirectory locate symbol mc fsi rls rlo auth ssti ipo luld etp elf inv
  | tradingAction locate state symbol reason => exact h.onTradingAction state symbol reason
  | regSho locate action => exact h.onRegSho action
  | addOrder locate id bsi qty px ts mpid attributed =>
      exact h.onAddOrder hfit locate id bsi qty px ts mpid attributed
  | orderExecuted locate id execQty matchNo => exact h.reduceOrder hfit locate id execQty _
  | orderExecutedWithPrice locate id execQty matchNo printable execPx =>
      exact h.reduceOrder hfit locate id execQty _
  | orderCancel locate id cancelledQty => exact h.reduceOrder hfit locate id cancelledQty _
  | orderDelete locate id => exact h.onOrderDelete hfit locate id
  | orderReplace locate oldId newId newQty newPx ts =>
      exact h.onOrderReplace hfit locate oldId newId newQty newPx ts
  | nonCrossTrade locate qty px matchNo =>
      exact h.count fun s => { s with nonCrossTrades := s.nonCrossTrades + 1 }
  | crossTrade locate xtype => exact h.onCrossTrade locate xtype
  | brokenTrade locate matchNo =>
      exact h.count fun s => { s with brokenTrades := s.brokenTrades + 1 }

/-- A fresh engine stands for the empty market. -/
theorem create_refines (orderPoolSize priceLevelPoolSize : UInt64) :
    (create orderPoolSize priceLevelPoolSize).Refines
      ⟨orderPoolSize.toNat, priceLevelPoolSize.toNat⟩ Market.empty := by
  have horders := MemoryPool.create_represents (T := Order) orderPoolSize
  have hlevels := MemoryPool.create_represents (T := PriceLevel) priceLevelPoolSize
  have hempty : ∀ q, ¬ ∃ l : StockLocate, OnRung ((fun _ _ => [] : StockLocate → Side →
      List Rung) l) q := by
    rintro q ⟨l, s, hq⟩
    cases hq
  refine ⟨[], _, _, fun _ _ => [], ⟨⟨fun l => OrderBook.create_represents _ _,
    hlevels.congr_used fun q => iff_of_false (hempty q) id, ?_⟩,
    horders.congr_used fun p => by simp, by simp, ?_, DirectOrderIndex.create_represents _,
    by simp⟩, rfl, rfl, rfl, rfl⟩
  · simp [levelTotal, create, MemoryPool.create]
  · simp [create, MemoryPool.create]

/-- The engine after the calls `cs`. -/
abbrev after (orderPoolSize priceLevelPoolSize : UInt64) (cs : List Call) : MatchingEngine :=
  run step (create orderPoolSize priceLevelPoolSize) cs

/-- A run from a state that stands for a market, through markets that fit. -/
theorem run_refines (h : e.Refines caps m) (cs : List Call)
    (hfit : ∀ pre, pre <+: cs → (run step e pre).Refines caps (run (Market.step caps) m pre) →
      (run (Market.step caps) m pre).Fits) :
    (run step e cs).Refines caps (run (Market.step caps) m cs) := by
  refine prefix_induction (P := fun pre =>
    (run step e pre).Refines caps (run (Market.step caps) m pre)) cs h fun pre c hpre ih => ?_
  rw [run_concat, run_concat]
  exact step_refines ih (hfit pre ((List.prefix_append _ _).trans hpre) ih) c

/-- A run of a fresh engine whose states all stay within the limits. -/
theorem after_refines_of_limits (oc lc : UInt64) (cs : List Call)
    (hlimits : ∀ pre, pre <+: cs → (after oc lc pre).WithinLimits) :
    (after oc lc cs).Refines ⟨oc.toNat, lc.toNat⟩
      (run (Market.step ⟨oc.toNat, lc.toNat⟩) Market.empty cs) :=
  run_refines (create_refines oc lc) cs fun pre hpre h => h.fits_of_limits (hlimits pre hpre)

/-- A run of a fresh engine with less than `2^32` order slots, no book ever too large. -/
theorem after_refines (oc lc : UInt64) (cs : List Call) (hcap : oc.toNat < 4294967296)
    (hroomy : ∀ pre, pre <+: cs → (after oc lc pre).Roomy) :
    (after oc lc cs).Refines ⟨oc.toNat, lc.toNat⟩
      (run (Market.step ⟨oc.toNat, lc.toNat⟩) Market.empty cs) :=
  run_refines (create_refines oc lc) cs fun pre hpre h => h.fits (hroomy pre hpre) hcap

/-! ## Small level pools -/

/-- One side of a book has no more levels than there are. -/
theorem length_book_le (live : List OrderData) (locate : StockLocate) (s : Side) :
    (bookOf live locate s).length ≤ levelCount live := by
  have hside : (bookOf live locate s).length ≤ levelsAt live locate := by
    unfold levelsAt
    cases s <;> omega
  exact hside.trans
    (Finset.single_le_sum (f := levelsAt live) (fun _ _ => Nat.zero_le _) (Finset.mem_univ locate))

/-- With at most 8192 level slots no book can become too large. -/
theorem after_roomy (oc lc : UInt64) (cs : List Call) (hcap : oc.toNat < 4294967296)
    (hlevels : lc.toNat ≤ kPriceLevelMapCapacity) : (after oc lc cs).Roomy := by
  have hsmall : ∀ {e : MatchingEngine} {m : Market}, e.Refines ⟨oc.toNat, lc.toNat⟩ m →
      e.Roomy := by
    intro e m h locate s
    rw [h.bookView_eq, List.length_map]
    exact (length_book_le _ _ _).trans (h.levelCount_le.trans hlevels)
  exact hsmall (run_refines (create_refines oc lc) cs fun pre _ h => h.fits (hsmall h) hcap)

/-- Small pools keep a run within the limits. -/
theorem after_limits (oc lc : UInt64) (cs : List Call) (hcap : oc.toNat < 4294967296)
    (hlevels : lc.toNat ≤ kPriceLevelMapCapacity) : (after oc lc cs).WithinLimits :=
  (after_refines oc lc cs hcap fun pre _ => after_roomy oc lc pre hcap hlevels).limits
    (after_roomy oc lc cs hcap hlevels) hcap

/-- A session on two instruments with an execution, a replace and a cancel. -/
def sampleSession : List Call :=
  [.addOrder 1 10 (ascii 'B') 300 1000000 1 MPID.blank false,
    .addOrder 2 20 (ascii 'S') 50 2500000 2 MPID.blank false,
    .addOrder 1 11 (ascii 'B') 200 1000000 3 MPID.blank false,
    .orderExecuted 1 10 100 77,
    .orderReplace 1 11 12 400 1000100 4,
    .orderCancel 2 20 10]

/-- Pools of four slots leave room in every book. -/
theorem sampleSession_roomy (pre : List Call) : (after 4 4 pre).Roomy :=
  after_roomy 4 4 pre (by decide) (by decide)

end MatchingEngine
end ItchParser
