import ItchParser.EngineReport
import ItchParser.Properties.Conservation
import ItchParser.Properties.Exhaustion
import ItchParser.Properties.InstrumentState

/-!
# What the engine report says

The report of a reachable state agrees with the reference for the calls that took effect. The leak
detection finds nothing, the pool lines add up, and the top-of-book sample lists the first ten
locates with live orders, each with its best prices, the shares at them and its live orders.
-/

namespace ItchParser

open Ladder OrderBook Machine MatchingEngine

namespace Reference

/-- The best price of one side and the shares at it, zeros for an empty side. -/
def quote (r : Reference) (locate : StockLocate) (s : Side) : Price × UInt64 :=
  match r.prices locate s with
  | [] => (0, 0)
  | px :: _ =>
      (px, UInt64.ofNat ((r.queue locate s px).map fun d => d.sharesRemaining.toNat).sum)

/-- The number of live orders at a locate. -/
def liveAt (r : Reference) (locate : StockLocate) : Nat :=
  (r.orders.entries.filter fun x => x.2.locate = locate).length

/-- The number of price levels of all books. -/
def levels (r : Reference) : Nat :=
  ∑ locate, ((r.prices locate .buy).length + (r.prices locate .sell).length)

/-- The line of a locate whose instrument has the symbol `symbol`. -/
def topOfBook (r : Reference) (symbol : Stock) (locate : StockLocate) : TopOfBook :=
  ⟨cString symbol.toList, (r.quote locate .buy).1, (r.quote locate .buy).2,
    (r.quote locate .sell).1, (r.quote locate .sell).2, UInt64.ofNat (r.liveAt locate)⟩

/-- The locates with live orders, in ascending order. -/
def active (r : Reference) : List StockLocate :=
  ((List.range 65536).map UInt16.ofNat).filter fun locate => 0 < r.liveAt locate

variable {r : Reference} {live : List OrderData}

/-- The reference counts the orders of a locate. -/
theorem Stands.liveAt_eq (h : r.Stands live) (locate : StockLocate) :
    r.liveAt locate = (live.filter fun d => d.locate = locate).length := by
  rw [← (h.entries_perm.filter _).length_eq, List.filter_map, List.length_map]
  rfl

/-- The reference counts the levels. -/
theorem Stands.levels_eq (h : r.Stands live) (hprice : NoReserved live) :
    r.levels = levelCount live := by
  refine Finset.sum_congr rfl fun locate _ => ?_
  rw [h.prices_eq hprice, h.prices_eq hprice, List.length_map, List.length_map]
  rfl

/-- The quote is read off the first group of the side. -/
theorem Stands.quote_eq (h : r.Stands live) (hprice : NoReserved live) (locate : StockLocate)
    (s : Side) : r.quote locate s = match (bookOf live locate s).head? with
      | none => (0, 0)
      | some g => (g.1, (LevelView.ofGroup g).totalShares) := by
  have hbook := h.book_eq hprice locate s
  unfold quote book at *
  rw [← hbook, List.head?_map]
  cases r.prices locate s <;> rfl

end Reference

namespace MatchingEngine

variable {e : MatchingEngine} {caps : Capacities} {m : Market} {locate : StockLocate}

/-- The best level is the first one that a traversal finds. -/
theorem best_eq_head (st : BookState) (s : Side) :
    (st.levelList s).head? = (st.book.side s).best := by
  unfold BookState.levelList
  cases (st.book.side s).best <;> rfl

/-- The quote of a side is its first level. -/
theorem quote_eq_head (e : MatchingEngine) (locate : StockLocate) (s : Side) :
    ((e.bookState (e.bookAt locate)).bestPrice s, (e.bookState (e.bookAt locate)).bestShares s) =
      match (e.bookView locate s).head? with
      | none => (0, 0)
      | some v => (v.price, v.totalShares) := by
  unfold bookView BookState.bestPrice BookState.bestShares BookState.bestLevel
  simp only [List.head?_map, best_eq_head]
  cases ((e.bookState (e.bookAt locate)).book.side s).best <;> rfl

/-- The order counter of one book. -/
theorem Refines.liveOrderCount_eq (h : e.Refines caps m) (locate : StockLocate) :
    (e.bookAt locate).liveOrderCount.toNat =
      (m.live.filter fun d => d.locate = locate).length := by
  obtain ⟨_, _, _, _, h⟩ := h
  rw [h.toLayout.liveOrderCount_eq, h.live, List.filter_map, List.length_map]
  rfl

/-- A locate with live orders has an instrument with a book. -/
theorem Refines.home (h : e.Refines caps m) {d : OrderData} (hd : d ∈ m.live) :
    (e.instruments.book d.locate).isSome := by
  obtain ⟨_, _, _, _, h⟩ := h
  rw [h.live] at hd
  obtain ⟨p, hp, rfl⟩ := List.mem_map.mp hd
  exact h.homes p hp

/-- Engine and market have the same capacities. -/
theorem Refines.capacities_eq (h : e.Refines caps m) :
    e.orderPool.capacity.toNat = caps.orders ∧ e.levelPool.capacity.toNat = caps.levels := by
  obtain ⟨_, _, _, _, h⟩ := h
  exact ⟨congrArg Capacities.orders h.capacities, congrArg Capacities.levels h.capacities⟩

/-- The line of a locate. -/
theorem topOfBook_at (e : MatchingEngine) (locate : StockLocate)
    (hhome : 0 < (e.bookAt locate).liveOrderCount.toNat → (e.instruments.book locate).isSome) :
    (e.instruments.slots locate).bind e.topOfBook =
      if 0 < (e.bookAt locate).liveOrderCount.toNat then
        (e.instruments.slots locate).map fun inst =>
          ⟨cString inst.symbol.toList, (e.bookState (e.bookAt locate)).bestBidPrice,
            (e.bookState (e.bookAt locate)).bestBidShares,
            (e.bookState (e.bookAt locate)).bestAskPrice,
            (e.bookState (e.bookAt locate)).bestAskShares, (e.bookAt locate).liveOrderCount⟩
      else none := by
  cases hslot : e.instruments.slots locate with
  | none => simp
  | some inst =>
      cases hbook : inst.book with
      | none =>
          -- without a book there is no live order either
          have hnone : e.instruments.book locate = none := by
            rw [InstrumentMap.book, hslot, Option.bind_some, hbook]
          rw [if_neg fun hpos => by simpa [hnone] using hhome hpos]
          simp [topOfBook, hbook]
      | some b =>
          have hat : e.bookAt locate = b :=
            bookAt_eq (by rw [InstrumentMap.book, hslot, Option.bind_some, hbook])
          rw [Option.bind_some, Option.map_some, hat]
          unfold topOfBook
          simp only [hbook]
          by_cases hzero : b.liveOrderCount = 0
          · simp [hzero]
          · have hpos : 0 < b.liveOrderCount.toNat := by
              rw [Nat.pos_iff_ne_zero]
              exact fun h => hzero (UInt64.toNat_inj.mp h)
            rw [if_neg hzero, if_pos hpos]

/-- The symbol of the last stock directory message for a locate, NULs before the first. -/
def lastSymbol (cs : List Call) (l : StockLocate) : Stock :=
  match (cs.filterMap (Call.directoryOf l)).getLast? with
  | some d => d.symbol
  | none => Vector.replicate 8 0

/-- The symbol is that of the last directory message. -/
theorem UpToDate.symbol {oc lc : UInt64} {cs : List Call} {l : StockLocate} {inst : Instrument}
    (h : UpToDate oc lc cs l inst) : inst.symbol = lastSymbol cs l := by
  have hsymbol := congrArg Directory.symbol h.directory
  unfold lastSymbol
  cases hlast : (cs.filterMap (Call.directoryOf l)).getLast? <;> rw [hlast] at hsymbol <;>
    exact hsymbol

/-- The symbol of an instrument after a run. -/
theorem symbol_after (oc lc : UInt64) (cs : List Call) {l : StockLocate} {inst : Instrument}
    (hslot : (after oc lc cs).instruments.slots l = some inst) : inst.symbol = lastSymbol cs l := by
  have hdescribed := described_after oc lc cs l
  rw [listings, hslot] at hdescribed
  exact hdescribed.2.symbol

/-- What the best level of a side says is the quote of the reference. -/
theorem Refines.quote_eq (h : e.Refines caps m) {r : Reference} (hstands : r.Stands m.live)
    (hprice : NoReserved m.live) (locate : StockLocate) (s : Side) :
    ((e.bookState (e.bookAt locate)).bestPrice s, (e.bookState (e.bookAt locate)).bestShares s) =
      r.quote locate s := by
  rw [quote_eq_head, h.bookView_eq, hstands.quote_eq hprice, Market.book, List.head?_map]
  cases (bookOf m.live locate s).head? <;> rfl

/-- The line of a locate is the line of the reference, and there is none without live orders. -/
theorem Refines.topOfBook_eq (h : e.Refines caps m) {r : Reference} (hstands : r.Stands m.live)
    (hprice : NoReserved m.live) {symbol : StockLocate → Stock}
    (hsymbol : ∀ l inst, e.instruments.slots l = some inst → inst.symbol = symbol l)
    (locate : StockLocate) : (e.instruments.slots locate).bind e.topOfBook =
      if 0 < r.liveAt locate then some (r.topOfBook (symbol locate) locate) else none := by
  have hcount : (e.bookAt locate).liveOrderCount.toNat = r.liveAt locate := by
    rw [h.liveOrderCount_eq, hstands.liveAt_eq]
  have hhome : 0 < (e.bookAt locate).liveOrderCount.toNat →
      (e.instruments.book locate).isSome := by
    rw [h.liveOrderCount_eq]
    intro hpos
    obtain ⟨d, hd⟩ := List.exists_mem_of_length_pos hpos
    obtain ⟨hlive, hlocate⟩ := List.mem_filter.mp hd
    rw [← of_decide_eq_true hlocate]
    exact h.home hlive
  rw [topOfBook_at e locate hhome, hcount]
  by_cases hpos : 0 < r.liveAt locate
  · rw [if_pos hpos, if_pos hpos]
    obtain ⟨b, hb⟩ := Option.isSome_iff_exists.mp (hhome (hcount ▸ hpos))
    obtain ⟨inst, hinst⟩ := Option.isSome_iff_exists.mp (InstrumentMap.isSome_of_book hb)
    rw [hinst, Option.map_some, hsymbol locate inst hinst, Reference.topOfBook,
      ← h.quote_eq hstands hprice, ← h.quote_eq hstands hprice, ← hcount, UInt64.ofNat_toNat]
    rfl
  · rw [if_neg hpos, if_neg hpos]

/-- The report prints the sample of the books. -/
theorem engineReport_topOfBook (e : MatchingEngine) :
    e.engineReport.topOfBook = e.topOfBookSample := by
  rw [engineReport]

/-- The sample is the first ten of the lines that there are. -/
theorem Refines.topOfBookSample_eq (h : e.Refines caps m) {r : Reference}
    (hstands : r.Stands m.live) (hprice : NoReserved m.live) {symbol : StockLocate → Stock}
    (hsymbol : ∀ l inst, e.instruments.slots l = some inst → inst.symbol = symbol l) :
    e.topOfBookSample = (r.active.take 10).map fun l => r.topOfBook (symbol l) l := by
  have hlines := fun l => h.topOfBook_eq hstands hprice hsymbol (UInt16.ofNat l)
  rw [topOfBookSample, Collect.foldl_collect, InstrumentMap.toList, List.filterMap_filterMap,
    Reference.active, List.filter_map, List.map_take, List.map_map]
  simp only [hlines]
  rw [Collect.filterMap_ite]
  rfl

end MatchingEngine

/-- The report agrees with the books of the reference `r` after the calls `cs`. -/
structure EngineReport.Agrees (report : EngineReport) (oc lc : UInt64) (cs : List Call)
    (r : Reference) : Prop where
  orderPool : report.orderPoolFree + r.orders.entries.length = report.orderPoolCapacity
  orderCapacity : report.orderPoolCapacity = oc.toNat
  levelPool : report.levelPoolFree + r.levels = report.levelPoolCapacity
  levelCapacity : report.levelPoolCapacity = lc.toNat
  liveOrders : report.stats.liveOrders = r.orders.entries.length
  liveLevels : report.stats.liveLevels = r.levels
  orderIndex : report.orderIndexSize.toNat = r.orders.entries.length
  lifecycle : report.lifecycle = .ok
  topOfBook : report.topOfBook =
    (r.active.take 10).map fun l => r.topOfBook (lastSymbol cs l) l

/-- The leak detection is quiet when the counter and the pool agree. -/
theorem PoolLifecycle.check_ok {live free cap : Nat} (h : live + free = cap) :
    PoolLifecycle.check live free cap = .ok := by
  unfold check
  rw [if_neg (by omega), if_neg (by omega)]

/-- The report of an engine that stands for the live orders of a reference. -/
theorem MatchingEngine.Refines.report_agrees {e : MatchingEngine} {oc lc : UInt64} {m : Market}
    {cs : List Call} {r : Reference} (h : e.Refines ⟨oc.toNat, lc.toNat⟩ m) (hcounts : m.Counts)
    (hstands : r.Stands m.live) (hreserved : NoReserved m.live)
    (hsymbol : ∀ l inst, e.instruments.slots l = some inst → inst.symbol = lastSymbol cs l) :
    e.engineReport.Agrees oc lc cs r := by
  have hlength := hstands.entries_perm.length_eq
  rw [List.length_map] at hlength
  have hlevels := hstands.levels_eq hreserved
  have hconserved := (h.conserved hcounts).toCountersConserved
  obtain ⟨horderCap, hlevelCap⟩ := h.capacities_eq
  have hlive : e.stats.liveOrders = r.orders.entries.length := by
    rw [h.stats_eq, hcounts.liveOrders, hlength]
  have hlifecycle := PoolLifecycle.check_ok hconserved.orders_pool
  refine ⟨?_, horderCap, ?_, hlevelCap, hlive, ?_, ?_, hlifecycle, ?_⟩
  · rw [← hlive, Nat.add_comm]
    exact hconserved.orders_pool
  · rw [hlevels]
    exact h.levelPool_freeCount.trans hlevelCap.symm
  · rw [hlevels]
    exact (congrArg EngineStats.liveLevels h.stats_eq).trans hcounts.liveLevels
  · rw [← hlive]
    exact hconserved.orders_indexed.symm
  · rw [engineReport_topOfBook, h.topOfBookSample_eq hstands hreserved hsymbol]

/-- The engine report of a run describes the books of the reference for the calls that took effect,
whatever the sizes of the pools. -/
theorem engineReport_agrees (oc lc : UInt64) (cs : List Call) (hcap : oc.toNat < 4294967296)
    (hprice : ∀ c ∈ cs, c.price? ≠ some kEmptyPrice)
    (hroomy : ∀ pre, pre <+: cs → (after oc lc pre).Roomy) :
    (after oc lc cs).engineReport.Agrees oc lc cs
      (run Reference.step Reference.empty ((create oc lc).effects cs)) :=
  (after_refines oc lc cs hcap hroomy).report_agrees (Market.counts_after _ cs)
    (stands_after oc lc cs hcap hroomy) (Market.noReserved_after _ hprice)
    fun _ _ => symbol_after oc lc cs

/-- A session that exhausts both pools. -/
theorem engineReport_agrees_sample :
    (after 3 1 starvedSession).engineReport.Agrees 3 1 starvedSession
      (run Reference.step Reference.empty starvedEffects) := by
  have heffects : (create 3 1).effects starvedSession = starvedEffects := by decide +kernel
  rw [← heffects]
  exact engineReport_agrees 3 1 starvedSession (by decide) (by decide) fun pre _ =>
    after_roomy 3 1 pre (by decide) (by decide)

end ItchParser
