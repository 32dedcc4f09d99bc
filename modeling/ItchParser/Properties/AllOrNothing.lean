import ItchParser.Engine.Agrees

/-!
# Replaces that are not accepted

A replace that is not accepted should leave the old order where it is. It does, unless it finds no
level for the new order once the old one is gone: then the old order is lost.
-/

namespace ItchParser

open Ladder OrderBook Machine

namespace Market

variable {caps : Capacities} {live : List OrderData} {d : OrderData}
  {oldId newId : OrderReferenceNumber} {qty : Shares} {px : Price} {ts : Timestamp}

/-- The level of `d` outlives it. -/
def Survives (live : List OrderData) (d : OrderData) : Prop :=
  ∀ g ∈ bookOf live d.locate d.side, g.2.filter (fun x => x.orderId ≠ d.orderId) ≠ []

/-- Only the order's own side of its book changes. -/
theorem levelsAt_without_eq (hnodup : (live.map OrderData.orderId).Nodup) (hd : d ∈ live) :
    levelsAt (without live d.orderId) d.locate + (bookOf live d.locate d.side).length =
      levelsAt live d.locate + (bookOf (without live d.orderId) d.locate d.side).length := by
  have hother : ∀ s, s ≠ d.side → bookOf (without live d.orderId) d.locate s =
      bookOf live d.locate s := by
    intro s hs
    unfold bookOf
    rw [restingOn_without_of_ne fun x hx hid h => hs ?_]
    rw [← h.2, List.inj_on_of_nodup_map hnodup hx hd hid]
  unfold levelsAt
  cases hs : d.side with
  | buy =>
      rw [hother .sell (by simp [hs])]
      omega
  | sell =>
      rw [hother .buy (by simp [hs])]
      omega

/-- A level that survives keeps its slot, and its price stays on the book. -/
theorem Survives.keeps (h : Survives live d) (hnodup : (live.map OrderData.orderId).Nodup)
    (hd : d ∈ live) :
    levelCount (without live d.orderId) = levelCount live ∧
      (bookOf (without live d.orderId) d.locate d.side).map Prod.fst =
        (bookOf live d.locate d.side).map Prod.fst := by
  have hkeys : (bookOf (without live d.orderId) d.locate d.side).map Prod.fst =
      (bookOf live d.locate d.side).map Prod.fst := by
    rw [bookOf_without]
    exact restrict_keys h
  have hlen := congrArg List.length hkeys
  rw [List.length_map, List.length_map] at hlen
  have hlevels := levelsAt_without_eq hnodup hd
  have hcount := levelCount_without hnodup hd
  have hcode : removalCode live d ≠ 2 := by
    unfold removalCode
    rw [if_neg (by omega)]
    decide
  rw [if_neg hcode, Nat.add_zero] at hcount
  exact ⟨hcount, hkeys⟩

/-- A level that does not survive leaves its slot. -/
theorem levelCount_of_not_survives (h : ¬ Survives live d)
    (hnodup : (live.map OrderData.orderId).Nodup) (hd : d ∈ live) :
    levelCount (without live d.orderId) < levelCount live := by
  unfold Survives at h
  push Not at h
  obtain ⟨g, hg, hgone⟩ := h
  have hlt : (bookOf (without live d.orderId) d.locate d.side).length <
      (bookOf live d.locate d.side).length := by
    rw [bookOf_without]
    exact length_restrict_lt hg hgone
  have hlevels := levelsAt_without_eq hnodup hd
  have hcount := levelCount_without hnodup hd
  have hcode : removalCode live d = 2 := if_pos (by omega)
  rw [if_pos hcode] at hcount
  omega

/-- Whether the replacement needs a level, on a book where the old level survives. -/
theorem Survives.opensFor_iff (h : Survives live d) (hnodup : (live.map OrderData.orderId).Nodup)
    (hd : d ∈ live) :
    opensFor (without live d.orderId) (replacement d newId qty px ts) = true ↔
      px = kEmptyPrice ∨ ∀ g ∈ bookOf live d.locate d.side, g.1 ≠ px := by
  have hany : ∀ ls : List (Price × List OrderData),
      (ls.any fun g => g.1 = px) = (ls.map Prod.fst).any fun k => k = px := fun ls => by
    rw [List.any_map]
    rfl
  show (!((pricePolicy d.side).shared px && (bookOf (without live d.orderId) d.locate d.side).any
    fun g => g.1 = px)) = true ↔ _
  rw [hany, (h.keeps hnodup hd).2, ← hany]
  simp only [Bool.not_eq_true', Bool.and_eq_false_iff, List.any_eq_false, decide_eq_true_eq]
  refine or_congr ?_ Iff.rfl
  rw [← Bool.not_eq_true, pricePolicy_shared, not_not]

/-- When the replacement finds no level. -/
theorem levelsFull_replacement (hnodup : (live.map OrderData.orderId).Nodup) (hd : d ∈ live)
    (hle : levelCount live ≤ caps.levels) :
    LevelsFull caps (without live d.orderId) (replacement d newId qty px ts) ↔
      caps.levels ≤ levelCount live ∧ Survives live d ∧
        (px = kEmptyPrice ∨ ∀ g ∈ bookOf live d.locate d.side, g.1 ≠ px) := by
  by_cases h : Survives live d
  · have hkeeps := (h.keeps hnodup hd).1
    unfold LevelsFull
    rw [h.opensFor_iff hnodup hd, hkeeps]
    exact ⟨fun hc => ⟨hc.2, h, hc.1⟩, fun hc => ⟨hc.2.2, hc.1⟩⟩
  · have hlt := levelCount_of_not_survives h hnodup hd
    exact iff_of_false (fun hc => by have hfull := hc.2; omega) fun hc => h hc.2.1

end Market

namespace MatchingEngine

/-- The books, the index and the live counters are as they were. -/
structure Unmoved (e e' : MatchingEngine) : Prop extends Intact e e' where
  liveOrders : e'.stats.liveOrders = e.stats.liveOrders
  liveLevels : e'.stats.liveLevels = e.stats.liveLevels

/-- The old order can be replaced and there is an order slot, but the only way to a level for the
new order would be through the old one's, and that holds other orders as well. -/
def Starved (e : MatchingEngine) (oldId newId : OrderReferenceNumber) (newPx : Price) : Prop :=
  ∃ d, e.orderOf oldId = some d ∧ e.orderOf newId = none ∧ d.priceCents ≠ kEmptyPrice ∧
    0 < e.orderPool.freeCount ∧ e.levelPool.freeCount = 0 ∧
    (∀ v ∈ e.bookView d.locate d.side, v.orders ≠ [d]) ∧
    (newPx = kEmptyPrice ∨ ∀ v ∈ e.bookView d.locate d.side, v.price ≠ newPx)

variable {e : MatchingEngine} {caps : Capacities} {m : Market} {oldId newId : OrderReferenceNumber}
  {qty : Shares} {px : Price} {ts : Timestamp}

/-- A level outlives an order unless the order is alone in it. -/
theorem Refines.survives_iff (h : e.Refines caps m) {d : OrderData} (hd : d ∈ m.live) :
    Market.Survives m.live d ↔ ∀ v ∈ e.bookView d.locate d.side, v.orders ≠ [d] := by
  rw [h.bookView_eq, List.forall_mem_map]
  refine forall₂_congr fun g hg => not_congr ?_
  obtain ⟨hne, hkeys⟩ := ladder_grouped _ _ hg
  have hlive : ∀ x ∈ g.2, x ∈ m.live := fun x hx => (List.mem_filter.mp (mem_of_group hg hx)).1
  have hperm := ladder_perm (pricePolicy d.side) OrderData.priceCents
    (restingOn m.live d.locate d.side)
  have hnodup : g.2.Nodup := by
    have hall := hperm.nodup_iff.mpr ((m.distinct.of_map _).filter _)
    exact (List.nodup_flatMap.mp hall).1 g hg
  show _ ↔ g.2 = [d]
  constructor
  · intro hgone
    have hself : ∀ x ∈ g.2, x = d := fun x hx => by
      have hid : x.orderId = d.orderId := by simpa using List.filter_eq_nil_iff.mp hgone x hx
      exact List.inj_on_of_nodup_map m.distinct (hlive x hx) hd hid
    exact (List.perm_singleton.mp ((List.perm_ext_iff_of_nodup hnodup (List.nodup_singleton d)).mpr
      fun x => ⟨fun hx => by simp [hself x hx], fun hx => by
        obtain ⟨y, hy⟩ := List.exists_mem_of_ne_nil _ hne
        rw [List.mem_singleton.mp hx, ← hself y hy]
        exact hy⟩))
  · intro heq
    rw [heq]
    simp

/-- The replace is starved exactly when its verdict is that the level pool is exhausted. -/
theorem Refines.starved_iff (h : e.Refines caps m) :
    e.Starved oldId newId px ↔ replaceVerdict caps m.live oldId newId qty px ts = .levelPool := by
  have hslots : caps.orders ≤ m.live.length ↔ ¬ 0 < e.orderPool.freeCount := by
    have hfree := h.orderPool_freeCount
    omega
  have hlevels : caps.levels ≤ levelCount m.live ↔ e.levelPool.freeCount = 0 := by
    have hfree := h.levelPool_freeCount
    omega
  rw [Market.replaceVerdict_levelPool]
  unfold Starved
  simp only [h.orderOf_eq, Market.find_eq]
  refine exists_congr fun d => and_congr_right fun hold => ?_
  obtain ⟨hd, rfl⟩ := mem_of_findIn hold
  have hfull : LevelsFull caps (without m.live d.orderId)
      (Market.replacement d newId qty px ts) ↔ _ :=
    Market.levelsFull_replacement m.distinct hd h.levelCount_le
  have hprices : (∀ v ∈ e.bookView d.locate d.side, v.price ≠ px) ↔
      ∀ g ∈ bookOf m.live d.locate d.side, g.1 ≠ px := by
    rw [h.bookView_eq, List.forall_mem_map]
    rfl
  rw [hfull, hprices, h.survives_iff hd, hlevels, hslots, not_not]
  refine and_congr_right fun _ => ?_
  rw [← and_assoc, and_comm (a := d.priceCents ≠ kEmptyPrice), and_assoc]

/-- Counting moves no order. -/
theorem unmoved_count {f : EngineStats → EngineStats} (hf : Market.Neutral f) :
    Unmoved e (e.count f) := by
  obtain ⟨horders, hlevels, -, -⟩ := hf e.stats
  exact ⟨intact_count f, horders, hlevels⟩

/-- Counting a mismatch as well moves no order. -/
theorem unmoved_mismatch {f : EngineStats → EngineStats} (hf : Market.Neutral f)
    (home locate : StockLocate) :
    Unmoved e ((e.count fun s => s.countMismatch home locate).count f) :=
  unmoved_count (f := fun s => f (s.countMismatch home locate)) fun s => by
    obtain ⟨h₁, h₂, h₃, h₄⟩ := hf (s.countMismatch home locate)
    obtain ⟨k₁, k₂, k₃, k₄⟩ := Market.neutral_countMismatch home locate s
    exact ⟨h₁.trans k₁, h₂.trans k₂, h₃.trans k₃, h₄.trans k₄⟩

/-- A replace that is turned away before it takes the old order off its book. -/
theorem Refines.onOrderReplace_unmoved (h : e.Refines caps m) (hfit : m.Fits)
    (locate : StockLocate)
    (hrejected : replaceVerdict caps m.live oldId newId qty px ts ≠ .accepted)
    (hlevel : replaceVerdict caps m.live oldId newId qty px ts ≠ .levelPool) :
    Unmoved e (e.onOrderReplace locate oldId newId qty px ts) := by
  obtain ⟨arrival, freeOrders, freeLevels, rungs, h⟩ := h
  unfold MatchingEngine.onOrderReplace
  cases hfind : e.findOrder oldId with
  | none => exact unmoved_count fun _ => ⟨rfl, rfl, rfl, rfl⟩
  | some old =>
      obtain ⟨ho, rfl, hm⟩ := h.find_some hfind
      obtain ⟨b, hbook⟩ := h.exists_book ho
      simp only [count_findOrder, count_instruments, count_orderPool, hbook]
      by_cases hnew : (e.findOrder newId).isSome
      · simp only [hnew, if_true]
        refine unmoved_mismatch ?_ _ _
        exact fun _ => ⟨rfl, rfl, rfl, rfl⟩
      simp only [hnew, Bool.false_eq_true, if_false]
      by_cases hfull : caps.orders ≤ m.live.length
      · obtain rfl := h.orders_full.mpr hfull
        simp only [h.orderPool.acquire_nil]
        refine unmoved_mismatch ?_ _ _
        exact fun _ => ⟨rfl, rfl, rfl, rfl⟩
      -- what is left is an order without a level, and the slot for the new one goes back
      obtain ⟨mem, rest, rfl, hacquire⟩ := h.acquire hfull
      have hpx : (orderData e.orders old).priceCents = kEmptyPrice := by
        by_contra hpx
        have hfresh : findIn m.live newId = none := by
          rw [h.find_isSome] at hnew
          exact Option.not_isSome_iff_eq_none.mp hnew
        have hfound : findIn m.live (e.orders old).orderId = some (orderData e.orders old) := hm
        unfold replaceVerdict at hrejected hlevel
        simp only [hfound, hfresh, Option.isSome_none, Bool.false_eq_true, hfull, hpx, if_false]
          at hrejected hlevel
        split at hrejected
        · next hroom => exact hlevel (if_pos hroom)
        · exact hrejected rfl
      have hheld := (h.count fun s => s.countMismatch (e.orders old).locate locate).hold
      have hengine := hheld.replaceOrder_missing (hfit.count _) hbook hpx (e.orders old).orderId
        newId qty px ts
      have hmem : ∀ p ∈ arrival, p ≠ mem := fun p hp he =>
        h.orderPool.not_used (p := mem) (by simp) (.inl (he ▸ hp))
      obtain ⟨hliveOrders, hliveLevels, -, -⟩ :=
        Market.neutral_countMismatch (e.orders old).locate locate e.stats
      simp only [hacquire]
      refine Eq.mpr (congrArg (Unmoved e) hengine) ?_
      refine ⟨intact_of_layout h.toLayout (hheld.count _).releaseHeld.toLayout (fun p hp => ?_) rfl,
        hliveOrders, hliveLevels⟩
      exact Function.update_of_ne (hmem p hp) _ _

/-- A starved replace takes an order off the books and puts none back. -/
theorem Refines.onOrderReplace_starved (h : e.Refines caps m) (hfit : m.Fits) (hcounts : m.Counts)
    (locate : StockLocate)
    (hlevel : replaceVerdict caps m.live oldId newId qty px ts = .levelPool) :
    (e.onOrderReplace locate oldId newId qty px ts).stats.liveOrders + 1 = e.stats.liveOrders := by
  obtain ⟨d, hold, hnew, horders, hpx, hfull⟩ := Market.replaceVerdict_levelPool.mp hlevel
  obtain ⟨hd, rfl⟩ := mem_of_findIn hold
  rw [(h.onOrderReplace hfit locate d.orderId newId qty px ts).stats_eq, h.stats_eq,
    hcounts.orderReplace.liveOrders, hcounts.liveOrders,
    Market.orderReplace_live_full hold hnew horders hpx hfull]
  exact length_without m.distinct hd

/-- An accepted replace is counted. -/
theorem replace_verdict_ne_accepted (m : Market) (locate : StockLocate)
    (hrejected : (m.orderReplace caps locate oldId newId qty px ts).stats.orderReplace =
      m.stats.orderReplace) : replaceVerdict caps m.live oldId newId qty px ts ≠ .accepted := by
  intro haccepted
  have hevents : (m.orderReplace caps locate oldId newId qty px ts).stats.events =
      (replaceVerdict caps m.live oldId newId qty px ts).tally
        (fun s => { s with orderReplace := s.orderReplace + 1 }) EngineStats.countReplacePool
          m.stats.events :=
    Market.orderReplace_events
  rw [haccepted] at hevents
  have hcounted : (m.orderReplace caps locate oldId newId qty px ts).stats.orderReplace =
    m.stats.orderReplace + 1 := congrArg EngineStats.orderReplace hevents
  omega

/-- In a run whose states all stay within the limits, a replace that is not accepted leaves the
books, the index and the live counters as they were if and only if it is not starved. -/
theorem replace_unmoved_iff (oc lc : UInt64) (cs : List Call)
    (hlimits : ∀ pre, pre <+: cs → (after oc lc pre).WithinLimits)
    (locate : StockLocate) (oldId newId : OrderReferenceNumber) (qty : Shares) (px : Price)
    (ts : Timestamp)
    (hrejected : ((after oc lc cs).onOrderReplace locate oldId newId qty px ts).stats.orderReplace =
      (after oc lc cs).stats.orderReplace) :
    Unmoved (after oc lc cs) ((after oc lc cs).onOrderReplace locate oldId newId qty px ts) ↔
      ¬ (after oc lc cs).Starved oldId newId px := by
  have hrefines := after_refines_of_limits oc lc cs hlimits
  have hfit := hrefines.fits_of_limits (hlimits cs (List.prefix_refl _))
  have hcounts : (Market.after ⟨oc.toNat, lc.toNat⟩ cs).Counts := Market.counts_after _ cs
  have hstarved : (after oc lc cs).Starved oldId newId px ↔
      replaceVerdict _ (Market.after ⟨oc.toNat, lc.toNat⟩ cs).live oldId newId qty px ts =
        .levelPool := hrefines.starved_iff
  rw [hstarved]
  constructor
  · intro hunmoved hlevel
    have hlost := hrefines.onOrderReplace_starved hfit hcounts locate hlevel
    have hkept := hunmoved.liveOrders
    omega
  · intro hlevel
    rw [(hrefines.onOrderReplace hfit locate oldId newId qty px ts).stats_eq, hrefines.stats_eq]
      at hrejected
    exact hrefines.onOrderReplace_unmoved hfit locate
      (replace_verdict_ne_accepted _ locate hrejected) hlevel

/-- Two orders share the only level when one of them is to move to another price. -/
def sharedLevel : List Call :=
  [.addOrder 1 10 (ascii 'B') 300 1000000 1 MPID.blank false,
    .addOrder 1 11 (ascii 'B') 200 1000000 2 MPID.blank false]

/-- The new id is taken, so the old order stays. -/
theorem replace_unmoved_iff_sample :
    Unmoved (after 4 1 sharedLevel) ((after 4 1 sharedLevel).onOrderReplace 1 11 10 200 1000100 3) ↔
      ¬ (after 4 1 sharedLevel).Starved 11 10 1000100 :=
  replace_unmoved_iff 4 1 sharedLevel
    (fun pre _ => after_limits 4 1 pre (by decide) (by decide)) 1 11 10 200 1000100 3
    (by decide +kernel)

/-- A replace that is not accepted and loses the old order. -/
theorem sharedLevel_loses_order :
    ((after 4 1 sharedLevel).onOrderReplace 1 11 12 200 1000100 3).stats.orderReplace =
        (after 4 1 sharedLevel).stats.orderReplace ∧
      ¬ Unmoved (after 4 1 sharedLevel)
        ((after 4 1 sharedLevel).onOrderReplace 1 11 12 200 1000100 3) := by
  refine ⟨by decide +kernel, fun h => ?_⟩
  have hcounts := h.liveOrders
  revert hcounts
  decide +kernel

end MatchingEngine
end ItchParser
