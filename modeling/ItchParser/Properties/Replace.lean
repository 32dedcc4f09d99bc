import ItchParser.Engine.Agrees

/-!
# Replacing an order

A replace of a live order by a new id is a delete followed by an add on the order's own book, if
there is an order slot left for it: the two engines agree, peaks included.
-/

namespace ItchParser

open Ladder OrderBook Machine

namespace Market

variable {caps : Capacities} {m m' : Market} {d : OrderData} {oldId newId : OrderReferenceNumber}
  {qty : Shares} {px : Price} {ts : Timestamp} {locate : StockLocate}
  {f accept accept' : EngineStats → EngineStats}

/-- The two markets have the same live orders, live counters and peaks. -/
structure SameLive (m m' : Market) : Prop where
  live : m.live = m'.live
  liveOrders : m.stats.liveOrders = m'.stats.liveOrders
  liveLevels : m.stats.liveLevels = m'.stats.liveLevels
  peakOrders : m.stats.peakLiveOrders = m'.stats.peakLiveOrders
  peakLevels : m.stats.peakLiveLevels = m'.stats.peakLiveLevels

/-- The relation goes both ways. -/
theorem SameLive.symm (h : m.SameLive m') : m'.SameLive m :=
  ⟨h.live.symm, h.liveOrders.symm, h.liveLevels.symm, h.peakOrders.symm, h.peakLevels.symm⟩

/-- The relation goes on. -/
theorem SameLive.trans {m'' : Market} (h : m.SameLive m') (h' : m'.SameLive m'') :
    m.SameLive m'' :=
  ⟨h.live.trans h'.live, h.liveOrders.trans h'.liveOrders, h.liveLevels.trans h'.liveLevels,
    h.peakOrders.trans h'.peakOrders, h.peakLevels.trans h'.peakLevels⟩

/-- Counting changes no order. -/
theorem sameLive_count (m : Market) (hf : Neutral f) : (m.count f).SameLive m := by
  obtain ⟨horders, hlevels, hpeakOrders, hpeakLevels⟩ := hf m.stats
  exact ⟨rfl, horders, hlevels, hpeakOrders, hpeakLevels⟩

/-- A new instrument changes no order. -/
theorem sameLive_know (m : Market) (locate : StockLocate) : (m.know locate).SameLive m :=
  ⟨rfl, rfl, rfl, rfl, rfl⟩

/-- Taking an order off, with its counters. -/
theorem SameLive.remove (h : m.SameLive m') (rc : Int) :
    ((m.remove d).count fun s => s.dropOrder.dropLevel rc).SameLive
      ((m'.remove d).count fun s => s.dropOrder.dropLevel rc) := by
  refine ⟨congrArg (without · d.orderId) h.live, ?_, ?_, ?_, ?_⟩
  · simp only [Market.count, Market.remove, EngineStats.dropLevel_eq, EngineStats.dropOrder_eq,
      h.liveOrders]
  · simp only [Market.count, Market.remove, EngineStats.dropLevel_eq, EngineStats.dropOrder_eq,
      h.liveLevels]
  · simp only [Market.count, Market.remove, EngineStats.dropLevel_eq, EngineStats.dropOrder_eq,
      h.peakOrders]
  · simp only [Market.count, Market.remove, EngineStats.dropLevel_eq, EngineStats.dropOrder_eq,
      h.peakLevels]

/-- Placing an order, whatever the events are counted as. -/
theorem SameLive.place (h : m.SameLive m') (hfresh : m.find d.orderId = none)
    (haccept : Neutral accept) (haccept' : Neutral accept') :
    (m.place caps d accept).SameLive (m'.place caps d accept') := by
  have hfresh' : m'.find d.orderId = none := by
    rw [find_eq, ← h.live]
    exact hfresh
  by_cases hfull : LevelsFull caps m.live d
  · rw [place_rejected hfresh hfull, place_rejected hfresh' (h.live ▸ hfull)]
    have hcount : Neutral EngineStats.countLevelPoolExhausted := fun _ => ⟨rfl, rfl, rfl, rfl⟩
    exact (sameLive_count m hcount).trans (h.trans (sameLive_count m' hcount).symm)
  · rw [place_accepted hfresh hfull, place_accepted hfresh' (h.live ▸ hfull), ← h.live]
    have hraised : ((m.append d hfresh).count fun s =>
        (s.raiseLevels (if opensFor m.live d then 2 else 1)).raiseOrders).SameLive
          ((m'.append d hfresh').count fun s =>
            (s.raiseLevels (if opensFor m.live d then 2 else 1)).raiseOrders) := by
      refine ⟨congrArg (· ++ [d]) h.live, ?_, ?_, ?_, ?_⟩
      · simp only [Market.count, Market.append, EngineStats.raiseOrders_eq,
          EngineStats.raiseLevels_eq, h.liveOrders]
      · simp only [Market.count, Market.append, EngineStats.raiseOrders_eq,
          EngineStats.raiseLevels_eq, h.liveLevels]
      · simp only [Market.count, Market.append, EngineStats.raiseOrders_eq,
          EngineStats.raiseLevels_eq, h.liveOrders, h.peakOrders]
      · simp only [Market.count, Market.append, EngineStats.raiseOrders_eq,
          EngineStats.raiseLevels_eq, h.liveLevels, h.peakLevels]
    exact (sameLive_count _ haccept).trans (hraised.trans (sameLive_count _ haccept').symm)

/-- A delete takes the order off. -/
theorem orderDelete_sameLive (hold : m.find d.orderId = some d) (hpx : d.priceCents ≠ kEmptyPrice) :
    (m.orderDelete locate d.orderId).SameLive
      ((m.remove d).count fun s => s.dropOrder.dropLevel (removalCode m.live d)) := by
  have hmismatch := sameLive_count m (neutral_countMismatch d.locate locate)
  have hbump : Neutral fun s => { s with orderDelete := s.orderDelete + 1 } :=
    fun _ => ⟨rfl, rfl, rfl, rfl⟩
  unfold Market.orderDelete
  simp only [hold, hpx, if_false]
  exact (sameLive_count (((m.count _).remove d).count fun s => s.dropOrder.dropLevel _) hbump).trans
    (hmismatch.remove _)

/-- An add of a new order, with a free slot, places it. -/
theorem addOrder_sameLive (attributed : Bool) (hfresh : m.find d.orderId = none)
    (hslot : m.live.length < caps.orders) (haccept : Neutral accept) :
    (m.addOrder caps d attributed).SameLive (m.place caps d accept) := by
  unfold Market.addOrder
  simp only [hfresh, Option.isSome_none, Bool.false_eq_true, if_false]
  rw [if_neg (show ¬ caps.orders ≤ (m.know d.locate).live.length from not_le.mpr hslot)]
  refine (sameLive_know m d.locate).place hfresh (fun s => ?_) haccept
  split <;> exact ⟨rfl, rfl, rfl, rfl⟩

/-- A replace is a delete and an add at the order's own locate. -/
theorem orderReplace_sameLive (attributed : Bool) (hold : m.find oldId = some d)
    (hnew : m.find newId = none) (hslot : m.live.length < caps.orders)
    (hpx : d.priceCents ≠ kEmptyPrice) :
    (m.orderReplace caps locate oldId newId qty px ts).SameLive
      ((m.orderDelete d.locate oldId).addOrder caps (replacement d newId qty px ts)
        attributed) := by
  obtain ⟨hd, rfl⟩ := find_eq_some.mp hold
  have hbump : Neutral fun s => { s with orderReplace := s.orderReplace + 1 } :=
    fun _ => ⟨rfl, rfl, rfl, rfl⟩
  have hfresh : findIn (without m.live d.orderId) newId = none := findIn_eq_none.mpr fun x hx =>
    findIn_eq_none.mp hnew x (mem_without.mp hx).1
  have hlen := length_without m.distinct hd
  have hdeleted : (m.orderDelete d.locate d.orderId).SameLive _ := orderDelete_sameLive hold hpx
  have hlive : (m.orderDelete d.locate d.orderId).live = without m.live d.orderId := hdeleted.live
  have hadded : ((m.orderDelete d.locate d.orderId).addOrder caps (replacement d newId qty px ts)
      attributed).SameLive _ :=
    addOrder_sameLive attributed (by rw [find_eq, hlive]; exact hfresh) (by rw [hlive]; omega) hbump
  refine SameLive.trans ?_ hadded.symm
  unfold Market.orderReplace
  simp only [hold, count_find, hnew, count_live, Option.isSome_none, Bool.false_eq_true, if_false,
    if_neg (not_le.mpr hslot), hpx]
  have hmismatch := sameLive_count m (neutral_countMismatch d.locate locate)
  exact ((hmismatch.remove _).trans hdeleted.symm).place hfresh hbump hbump

end Market

namespace MatchingEngine

/-- The peaks are the same as well. -/
structure AgreesFully (e e' : MatchingEngine) : Prop extends Agrees e e' where
  peakOrders : e.stats.peakLiveOrders = e'.stats.peakLiveOrders
  peakLevels : e.stats.peakLiveLevels = e'.stats.peakLiveLevels

variable {e e' : MatchingEngine} {caps : Capacities} {m m' : Market}

/-- Engines of such markets agree on all that is listed. -/
theorem Refines.agreesFully (h : e.Refines caps m) (h' : e'.Refines caps m') (hcounts : m.Counts)
    (hcounts' : m'.Counts) (hsame : m.SameLive m') : e.AgreesFully e' := by
  refine ⟨h.agrees h' hcounts hcounts' hsame.live, ?_, ?_⟩
  · rw [h.stats_eq, h'.stats_eq, hsame.peakOrders]
  · rw [h.stats_eq, h'.stats_eq, hsame.peakLevels]

/-- Both ways of replacing an order, in an engine that stands for a market. -/
theorem Refines.replace_agreesFully (h : e.Refines caps m) (hcounts : m.Counts)
    (hcap : caps.orders < 4294967296) (hroomy : e.Roomy) (hprice : NoReserved m.live)
    (hslot : 0 < e.orderPool.freeCount) {old : OrderData} {newId : OrderReferenceNumber}
    (hold : m.find old.orderId = some old) (hnew : m.find newId = none) (locate : StockLocate)
    (qty : Shares) (px : Price) (ts : Timestamp) {bsi : BuySellIndicator}
    (hside : toSide bsi = old.side) :
    (e.onOrderReplace locate old.orderId newId qty px ts).AgreesFully
      ((e.onOrderDelete old.locate old.orderId).onAddOrder old.locate newId bsi qty px ts
        old.mpid true) := by
  have hpx : old.priceCents ≠ kEmptyPrice := hprice old (Market.find_eq_some.mp hold).1
  have hfree := h.orderPool_freeCount
  have hfit := h.fits hroomy hcap
  have hreplaced := h.onOrderReplace hfit locate old.orderId newId qty px ts
  have hdeleted := h.onOrderDelete hfit old.locate old.orderId
  have hlive : (m.orderDelete old.locate old.orderId).live = without m.live old.orderId :=
    (Market.orderDelete_sameLive hold hpx).live
  have hroomy' := h.roomy_of_le hdeleted (fun locate s => by
    rw [Market.book, hlive, bookOf_without]
    exact List.length_filterMap_le _ _) hroomy
  have hadded := hdeleted.onAddOrder (hdeleted.fits hroomy' hcap) old.locate newId bsi qty px ts
    old.mpid true
  have horder : (⟨newId, old.locate, px, qty, toSide bsi, ts,
      if true then old.mpid else MPID.blank⟩ : OrderData) =
        Market.replacement old newId qty px ts := by
    rw [hside]
    rfl
  rw [horder] at hadded
  exact hreplaced.agreesFully hadded hcounts.orderReplace (hcounts.orderDelete.addOrder true)
    (Market.orderReplace_sameLive true hold hnew (by omega) hpx)

/-- In every reachable state with a free order slot, replacing a live order by an order with a new
id is the same as deleting it and adding the new one on its book. -/
theorem replace_eq_delete_add (oc lc : UInt64) (cs : List Call) (hcap : oc.toNat < 4294967296)
    (hprice : ∀ c ∈ cs, c.price? ≠ some kEmptyPrice)
    (hroomy : ∀ pre, pre <+: cs → (after oc lc pre).Roomy)
    (hslot : 0 < (after oc lc cs).orderPool.freeCount)
    (oldId newId : OrderReferenceNumber) (old : OrderData)
    (hold : (after oc lc cs).orderOf oldId = some old)
    (hnew : (after oc lc cs).orderOf newId = none) (locate : StockLocate) (qty : Shares)
    (px : Price) (ts : Timestamp) (bsi : BuySellIndicator) (hside : toSide bsi = old.side) :
    ((after oc lc cs).onOrderReplace locate oldId newId qty px ts).AgreesFully
      (((after oc lc cs).onOrderDelete old.locate oldId).onAddOrder old.locate newId bsi qty px ts
        old.mpid true) := by
  have hrefines := after_refines oc lc cs hcap hroomy
  have hcounts : (Market.after ⟨oc.toNat, lc.toNat⟩ cs).Counts := Market.counts_after _ cs
  have hreserved := Market.noReserved_after ⟨oc.toNat, lc.toNat⟩ hprice
  rw [hrefines.orderOf_eq] at hold hnew
  obtain ⟨-, rfl⟩ := Market.find_eq_some.mp hold
  exact hrefines.replace_agreesFully hcounts hcap (hroomy cs (List.prefix_refl _)) hreserved hslot
    hold hnew locate qty px ts hside

/-- The level of order 11 survives and the only other level slot is taken, so there is no level for
its replacement. -/
theorem replace_eq_delete_add_sample :
    ((after 4 2 (sampleSession.take 3)).onOrderReplace 1 11 12 400 1000100 4).AgreesFully
      (((after 4 2 (sampleSession.take 3)).onOrderDelete 1 11).onAddOrder 1 12 (ascii 'B') 400
        1000100 4 MPID.blank true) :=
  replace_eq_delete_add 4 2 (sampleSession.take 3) (by decide) (by decide)
    (fun pre _ => after_roomy 4 2 pre (by decide) (by decide)) (by decide +kernel) 11 12
    ⟨11, 1, 1000000, 200, .buy, 3, MPID.blank⟩ (by decide +kernel) (by decide +kernel) 1 400 1000100
    4 (ascii 'B') (by decide)

end MatchingEngine
end ItchParser
