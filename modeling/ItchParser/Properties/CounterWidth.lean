import ItchParser.Market.Verdict
import ItchParser.Properties.IndexCollisions

/-!
# The counters fit their words

The counters of the statistics, of the index and of the instrument map are 64-bit words in memory
and natural numbers here. One call raises each of them by at most one, so in a run of fewer than
2^64 calls none of the words wraps and both counts agree. Nothing is assumed about the run.
-/

namespace ItchParser

open Machine

namespace EngineStats

/-- The counters of events and of their rejections. -/
def eventCounters : List (EngineStats → Nat) :=
  [addOrders, addOrdersWithMpid, orderExecuted, orderExecutedWithPrice, orderCancel, orderDelete,
    orderReplace, nonCrossTrades, crossTrades, brokenTrades, instrumentsRegistered,
    addRejectedPoolExhausted, addRejectedLevelPoolExhausted, replaceRejectedPoolExhausted,
    duplicateAdds, levelMissing, unknownOrderEvents, poolExhausted]

/-- All counters of the statistics. -/
def counters : List (EngineStats → Nat) :=
  eventCounters ++ [locateMismatches, liveOrders, peakLiveOrders, liveLevels, peakLiveLevels]

/-- Bounds for the counters. A call raises those of each bound together, at one place of its
handler: the event counters, the mismatches, the orders and the levels. -/
structure Within (s : EngineStats) (events mismatches orders levels : Nat) : Prop where
  events : ∀ c ∈ eventCounters, c s ≤ events
  locateMismatches : s.locateMismatches ≤ mismatches
  liveOrders : s.liveOrders ≤ orders
  peakLiveOrders : s.peakLiveOrders ≤ orders
  liveLevels : s.liveLevels ≤ levels
  peakLiveLevels : s.peakLiveLevels ≤ levels

/-- The update counts one event: no event counter goes up by more, and the others stay. -/
structure CountsOne (f : EngineStats → EngineStats) : Prop where
  events : ∀ s, ∀ c ∈ eventCounters, c (f s) ≤ c s + 1
  locateMismatches : ∀ s, (f s).locateMismatches = s.locateMismatches
  neutral : Market.Neutral f

variable {s : EngineStats} {a b o l : Nat} {f : EngineStats → EngineStats}

/-- Bounds may be raised. -/
theorem Within.mono (h : s.Within a b o l) {a' b' o' l' : Nat} (ha : a ≤ a') (hb : b ≤ b')
    (ho : o ≤ o') (hl : l ≤ l') : s.Within a' b' o' l' :=
  ⟨fun c hc => (h.events c hc).trans ha, h.locateMismatches.trans hb, h.liveOrders.trans ho,
    h.peakLiveOrders.trans ho, h.liveLevels.trans hl, h.peakLiveLevels.trans hl⟩

/-- Under one bound for all of them every counter is below it. -/
theorem Within.counters_le {n : Nat} (h : s.Within n n n n) : ∀ c ∈ counters, c s ≤ n := by
  intro c hc
  rcases List.mem_append.mp hc with hc | hc
  · exact h.events c hc
  · simp only [List.mem_cons, List.not_mem_nil, or_false] at hc
    rcases hc with rfl | rfl | rfl | rfl | rfl
    · exact h.locateMismatches
    · exact h.liveOrders
    · exact h.peakLiveOrders
    · exact h.liveLevels
    · exact h.peakLiveLevels

/-! ## The updates of the statistics -/

/-- Counting an event takes one from the first bound. -/
theorem Within.count (h : s.Within a b o l) (hf : CountsOne f) :
    (f s).Within (a + 1) b o l := by
  obtain ⟨horders, hlevels, hpeakOrders, hpeakLevels⟩ := hf.neutral s
  refine ⟨fun c hc => ?_, ?_, ?_, ?_, ?_, ?_⟩
  · exact (hf.events s c hc).trans (Nat.succ_le_succ (h.events c hc))
  · exact (hf.locateMismatches s).trans_le h.locateMismatches
  · exact horders.trans_le h.liveOrders
  · exact hpeakOrders.trans_le h.peakLiveOrders
  · exact hlevels.trans_le h.liveLevels
  · exact hpeakLevels.trans_le h.peakLiveLevels

/-- The other counters may be set under bounds of their own. -/
theorem Within.setGauges (h : s.Within a b o l)
    {mismatches orders peakOrders levels peakLevels b' o' l' : Nat} (hmismatches : mismatches ≤ b') (horders : orders ≤ o')
    (hpeakOrders : peakOrders ≤ o') (hlevels : levels ≤ l') (hpeakLevels : peakLevels ≤ l') :
    { s with
      locateMismatches := mismatches
      liveOrders := orders
      peakLiveOrders := peakOrders
      liveLevels := levels
      peakLiveLevels := peakLevels }.Within a b' o' l' := by
  refine ⟨fun c hc => ?_, hmismatches, horders, hpeakOrders, hlevels, hpeakLevels⟩
  have hsame : ∀ c ∈ eventCounters, c { s with
      locateMismatches := mismatches
      liveOrders := orders
      peakLiveOrders := peakOrders
      liveLevels := levels
      peakLiveLevels := peakLevels } = c s := by
    simp [eventCounters]
  exact (hsame c hc).trans_le (h.events c hc)

/-- The check of the locate takes one from the second bound. -/
theorem Within.countMismatch (h : s.Within a b o l) (home locate : StockLocate) :
    (s.countMismatch home locate).Within a (b + 1) o l := by
  have hmismatches := h.locateMismatches
  rw [countMismatch_eq]
  refine h.setGauges ?_ h.liveOrders h.peakLiveOrders h.liveLevels h.peakLiveLevels
  split <;> omega

/-- A new order takes one from the third bound. -/
theorem Within.raiseOrders (h : s.Within a b o l) : s.raiseOrders.Within a b (o + 1) l := by
  have hlive := h.liveOrders
  have hpeak := h.peakLiveOrders
  rw [raiseOrders_eq]
  exact h.setGauges h.locateMismatches (by omega) (by omega) h.liveLevels h.peakLiveLevels

/-- A new level takes one from the last bound. -/
theorem Within.raiseLevels (h : s.Within a b o l) (rc : Int) :
    (s.raiseLevels rc).Within a b o (l + 1) := by
  have hlive := h.liveLevels
  have hpeak := h.peakLiveLevels
  rw [raiseLevels_eq]
  refine h.setGauges h.locateMismatches h.liveOrders h.peakLiveOrders ?_ ?_
  · split <;> omega
  · split <;> omega

/-- A removed order takes nothing. -/
theorem Within.dropOrder (h : s.Within a b o l) : s.dropOrder.Within a b o l := by
  rw [dropOrder_eq]
  exact h.setGauges h.locateMismatches ((Nat.sub_le _ _).trans h.liveOrders) h.peakLiveOrders
    h.liveLevels h.peakLiveLevels

/-- A removed level takes nothing. -/
theorem Within.dropLevel (h : s.Within a b o l) (rc : Int) : (s.dropLevel rc).Within a b o l := by
  rw [dropLevel_eq]
  exact h.setGauges h.locateMismatches h.liveOrders h.peakLiveOrders
    ((Nat.sub_le _ _).trans h.liveLevels) h.peakLiveLevels

/-- A cleared book takes nothing. -/
theorem Within.dropBook (h : s.Within a b o l) (orders levels : Nat) :
    (s.dropBook orders levels).Within a b o l := by
  rw [dropBook_eq]
  exact h.setGauges h.locateMismatches ((Nat.sub_le _ _).trans h.liveOrders) h.peakLiveOrders
    ((Nat.sub_le _ _).trans h.liveLevels) h.peakLiveLevels

/-- An unknown event is one event. -/
theorem countsOne_countUnknown : CountsOne countUnknown :=
  ⟨fun s => by simp [eventCounters, countUnknown], fun _ => rfl, fun _ => ⟨rfl, rfl, rfl, rfl⟩⟩

/-- A duplicate is one event, in two counters. -/
theorem countsOne_countDuplicate : CountsOne countDuplicate :=
  ⟨fun s => by simp [eventCounters, countDuplicate], fun _ => rfl, fun _ => ⟨rfl, rfl, rfl, rfl⟩⟩

/-- A missing level is one event, in two counters. -/
theorem countsOne_countLevelMissing : CountsOne countLevelMissing :=
  ⟨fun s => by simp [eventCounters, countLevelMissing], fun _ => rfl,
    fun _ => ⟨rfl, rfl, rfl, rfl⟩⟩

/-- A rejection by the level pool is one event, in two counters. -/
theorem countsOne_countLevelPoolExhausted : CountsOne countLevelPoolExhausted :=
  ⟨fun s => by simp [eventCounters, countLevelPoolExhausted], fun _ => rfl,
    fun _ => ⟨rfl, rfl, rfl, rfl⟩⟩

/-- A replace whose new order the index turns away is one event. -/
theorem countsOne_duplicateAdds :
    CountsOne fun s => { s with duplicateAdds := s.duplicateAdds + 1 } :=
  ⟨fun s => by simp [eventCounters], fun _ => rfl, fun _ => ⟨rfl, rfl, rfl, rfl⟩⟩

/-- A cross is one event. -/
theorem countsOne_crossTrades :
    CountsOne fun s => { s with crossTrades := s.crossTrades + 1 } :=
  ⟨fun s => by simp [eventCounters], fun _ => rfl, fun _ => ⟨rfl, rfl, rfl, rfl⟩⟩

/-- A non-cross trade is one event. -/
theorem countsOne_nonCrossTrades :
    CountsOne fun s => { s with nonCrossTrades := s.nonCrossTrades + 1 } :=
  ⟨fun s => by simp [eventCounters], fun _ => rfl, fun _ => ⟨rfl, rfl, rfl, rfl⟩⟩

/-- A broken trade is one event. -/
theorem countsOne_brokenTrades :
    CountsOne fun s => { s with brokenTrades := s.brokenTrades + 1 } :=
  ⟨fun s => by simp [eventCounters], fun _ => rfl, fun _ => ⟨rfl, rfl, rfl, rfl⟩⟩

/-- A registered instrument is one event. -/
theorem countsOne_instrumentsRegistered :
    CountsOne fun s => { s with instrumentsRegistered := s.instrumentsRegistered + 1 } :=
  ⟨fun s => by simp [eventCounters], fun _ => rfl, fun _ => ⟨rfl, rfl, rfl, rfl⟩⟩

/-- An order event that finds no order slot is one event. -/
theorem countsOne_pool (c : Call) : CountsOne c.pool := by
  have hadd : CountsOne countAddPool :=
    ⟨fun s => by simp [eventCounters, countAddPool], fun _ => rfl, fun _ => ⟨rfl, rfl, rfl, rfl⟩⟩
  have hreplace : CountsOne countReplacePool :=
    ⟨fun s => by simp [eventCounters, countReplacePool], fun _ => rfl,
      fun _ => ⟨rfl, rfl, rfl, rfl⟩⟩
  cases c with
  | orderReplace => exact hreplace
  | _ => exact hadd

/-- An accepted order event is one event. -/
theorem countsOne_accept (c : Call) : CountsOne c.accept := by
  cases c with
  | addOrder locate id bsi qty px ts mpid attributed =>
      cases attributed <;>
        exact ⟨fun s => by simp [eventCounters, Call.accept], fun _ => rfl,
          fun _ => ⟨rfl, rfl, rfl, rfl⟩⟩
  | _ => exact ⟨fun s => by simp [eventCounters, Call.accept], fun _ => rfl,
      fun _ => ⟨rfl, rfl, rfl, rfl⟩⟩

end EngineStats

namespace MatchingEngine

open EngineStats

/-- The bounds for the statistics, and one for the number of instruments. -/
structure Within (e : MatchingEngine) (events mismatches orders levels instruments : Nat) :
    Prop where
  stats : e.stats.Within events mismatches orders levels
  instruments : e.instruments.count ≤ instruments

variable {e : MatchingEngine} {a b o l i : Nat} {f rollback accept : EngineStats → EngineStats}
  {locate : StockLocate} {id : OrderReferenceNumber}

/-- Bounds may be raised. -/
theorem Within.mono (h : e.Within a b o l i) {a' b' o' l' i' : Nat} (ha : a ≤ a') (hb : b ≤ b')
    (ho : o ≤ o') (hl : l ≤ l') (hi : i ≤ i') : e.Within a' b' o' l' i' :=
  ⟨h.stats.mono ha hb ho hl, h.instruments.trans hi⟩

/-- An update of the statistics takes what it takes there. -/
theorem Within.count (h : e.Within a b o l i) {a' b' o' l' : Nat}
    (hf : ∀ s : EngineStats, s.Within a b o l → (f s).Within a' b' o' l') :
    (e.count f).Within a' b' o' l' i :=
  ⟨hf e.stats h.stats, h.instruments⟩

/-- Writing a book back creates no instrument. -/
theorem Within.putBook (h : e.Within a b o l i) (locate : StockLocate) (st : BookState) :
    (e.putBook locate st).Within a b o l i := by
  refine ⟨h.stats, ?_⟩
  show (e.instruments.setBook locate st.book).count ≤ i
  unfold InstrumentMap.setBook
  split <;> exact h.instruments

/-- The index is not counted here. -/
theorem Within.eraseOrder (h : e.Within a b o l i) (id : OrderReferenceNumber) :
    (e.eraseOrder id).Within a b o l i :=
  ⟨h.stats, h.instruments⟩

/-- The order pool is not counted here. -/
theorem Within.releaseOrder (h : e.Within a b o l i) (p : Ptr) :
    (e.releaseOrder p).Within a b o l i :=
  ⟨h.stats, h.instruments⟩

/-- The order memory is not counted here. -/
theorem Within.constructOrder (h : e.Within a b o l i) (mem : Ptr) (order : Order) :
    (e.constructOrder mem order).Within a b o l i :=
  ⟨h.stats, h.instruments⟩

/-- The order pool is not counted here. -/
theorem Within.setOrderPool (h : e.Within a b o l i) (pool : MemoryPool Order) :
    (e.setOrderPool pool).Within a b o l i :=
  ⟨h.stats, h.instruments⟩

/-- The index is not counted here. -/
theorem Within.setIndex (h : e.Within a b o l i) (index : DirectOrderIndex) :
    { e with orderIndex := index }.Within a b o l i :=
  ⟨h.stats, h.instruments⟩

/-! ## The handlers -/

/-- An order that the index turns away is one event, and so is one that is accepted. -/
theorem Within.indexAdded (h : e.Within a b o l i) (hrollback : CountsOne rollback)
    (haccept : CountsOne accept) (p : Ptr) (book : OrderBook) :
    (e.indexAdded locate id p book rollback accept).Within (a + 1) b (o + 1) l i := by
  unfold MatchingEngine.indexAdded
  split
  · have hcounted : (e.count rollback).Within (a + 1) b (o + 1) l i :=
      (h.count fun s hs => hs.count hrollback).mono (Nat.le_refl _) (Nat.le_refl _)
        (Nat.le_succ _) (Nat.le_refl _) (Nat.le_refl _)
    exact ((hcounted.putBook locate _).count fun s hs => hs.dropLevel _).releaseOrder p
  · exact (h.setIndex _).count fun s hs => hs.raiseOrders.count haccept

/-- An order that gets no level is one event, and no level is opened for it. -/
theorem Within.placeOrder (h : e.Within a b o l i) (hrollback : CountsOne rollback)
    (haccept : CountsOne accept) (p : Ptr) (book : OrderBook) :
    (e.placeOrder locate id p book rollback accept).Within (a + 1) b (o + 1) (l + 1) i := by
  unfold MatchingEngine.placeOrder
  simp only
  split
  · refine Within.releaseOrder (Within.count ((h.putBook locate _).mono (Nat.le_refl _)
      (Nat.le_refl _) (Nat.le_succ _) (Nat.le_succ _) (Nat.le_refl _)) fun s hs => ?_) p
    exact hs.count countsOne_countLevelPoolExhausted
  · refine Within.indexAdded (Within.count (h.putBook locate _) fun s hs => ?_) hrollback haccept
      p _
    exact hs.raiseLevels _

/-- An execution or a cancel opens nothing. -/
theorem Within.reduceOrder (h : e.Within a b o l i) (method : BookState → Ptr → Int × BookState)
    (haccept : CountsOne accept) :
    (e.reduceOrder locate id method accept).Within (a + 1) (b + 1) o l i := by
  unfold MatchingEngine.reduceOrder
  split
  · exact (h.count fun _ hs => hs.count countsOne_countUnknown).mono (Nat.le_refl _)
      (Nat.le_succ _) (Nat.le_refl _) (Nat.le_refl _) (Nat.le_refl _)
  · next p hp =>
      have hmismatch := h.count fun _ hs => hs.countMismatch (e.orders p).locate locate
      simp only
      split
      · exact hmismatch.count fun _ hs => hs.count countsOne_countUnknown
      · split
        · exact (hmismatch.putBook _ _).count fun _ hs => hs.count countsOne_countLevelMissing
        · have haccepted := fun st => (hmismatch.putBook (e.orders p).locate st).count
            fun _ hs => hs.count haccept
          split
          · exact (((haccepted _).eraseOrder id).releaseOrder p).count
              fun _ hs => hs.dropOrder.dropLevel _
          · exact haccepted _

/-- A delete opens nothing. -/
theorem Within.onOrderDelete (h : e.Within a b o l i) :
    (e.onOrderDelete locate id).Within (a + 1) (b + 1) o l i := by
  unfold MatchingEngine.onOrderDelete
  split
  · exact (h.count fun _ hs => hs.count countsOne_countUnknown).mono (Nat.le_refl _)
      (Nat.le_succ _) (Nat.le_refl _) (Nat.le_refl _) (Nat.le_refl _)
  · next p hp =>
      have hmismatch := h.count fun _ hs => hs.countMismatch (e.orders p).locate locate
      simp only
      split
      · exact hmismatch.count fun _ hs => hs.count countsOne_countUnknown
      · split
        · exact (hmismatch.putBook _ _).count fun _ hs => hs.count countsOne_countLevelMissing
        · have hput := fun st => hmismatch.putBook (e.orders p).locate st
          refine Within.count (((hput _).eraseOrder id).releaseOrder p) fun s hs => ?_
          exact (hs.dropOrder.dropLevel _).count (countsOne_accept (.orderDelete locate id))

/-- The old order makes room for the new one, and only the new one is counted. -/
theorem Within.replaceOrder (h : e.Within a b o l i) {home : StockLocate}
    {oldId newId : OrderReferenceNumber} {newQty : Shares} {newPx : Price} {ts : Timestamp}
    (old mem : Ptr) (book : OrderBook) :
    (e.replaceOrder home oldId newId newQty newPx ts old mem book).Within (a + 1) b (o + 1) (l + 1)
      i := by
  unfold MatchingEngine.replaceOrder
  simp only
  split
  · refine Within.releaseOrder (Within.count ((h.putBook home _).mono (Nat.le_refl _)
      (Nat.le_refl _) (Nat.le_succ _) (Nat.le_succ _) (Nat.le_refl _)) fun s hs => ?_) mem
    exact hs.count countsOne_countLevelMissing
  · refine Within.placeOrder (Within.constructOrder (Within.count
      (((h.putBook home _).eraseOrder oldId).releaseOrder old) fun s hs => ?_) mem _) ?_ ?_ mem _
    · exact hs.dropOrder.dropLevel _
    · exact countsOne_duplicateAdds
    · exact countsOne_accept (.orderReplace home oldId newId newQty newPx ts)

/-- The checks of a replace end in one event each. -/
theorem Within.onOrderReplace (h : e.Within a b o l i) {oldId newId : OrderReferenceNumber}
    {newQty : Shares} {newPx : Price} {ts : Timestamp} :
    (e.onOrderReplace locate oldId newId newQty newPx ts).Within (a + 1) (b + 1) (o + 1) (l + 1)
      i := by
  have hroom : ∀ {e' : MatchingEngine} {b' : Nat}, e'.Within (a + 1) b' o l i → b' ≤ b + 1 →
      e'.Within (a + 1) (b + 1) (o + 1) (l + 1) i := fun he' hb' =>
    he'.mono (Nat.le_refl _) hb' (Nat.le_succ _) (Nat.le_succ _) (Nat.le_refl _)
  unfold MatchingEngine.onOrderReplace
  split
  · exact hroom (h.count fun _ hs => hs.count countsOne_countUnknown) (Nat.le_succ _)
  · next old hold =>
      have hmismatch := h.count fun _ hs => hs.countMismatch (e.orders old).locate locate
      simp only
      split
      · exact hroom (hmismatch.count fun _ hs => hs.count countsOne_countDuplicate)
          (Nat.le_refl _)
      · split
        · exact hroom (hmismatch.count fun _ hs => hs.count countsOne_countUnknown)
            (Nat.le_refl _)
        · split
          · refine hroom (Within.count hmismatch fun s hs => ?_) (Nat.le_refl _)
            exact hs.count (countsOne_pool (.orderReplace locate oldId newId newQty newPx ts))
          · exact (hmismatch.setOrderPool _).replaceOrder _ _ _

/-- An order may be the first thing that is heard of its instrument. -/
theorem Within.getOrCreate (h : e.Within a b o l i) (locate : StockLocate) (inst : Instrument) :
    { e with instruments := (e.instruments.getOrCreate locate).2.set locate inst }.Within a b o l
      (i + 1) := by
  have hcount := h.instruments
  refine ⟨h.stats, ?_⟩
  show (e.instruments.getOrCreate locate).2.count ≤ i + 1
  unfold InstrumentMap.getOrCreate
  split
  · exact Nat.le_succ_of_le hcount
  · exact Nat.succ_le_succ hcount

/-- An add may create the instrument and open a level. -/
theorem Within.onAddOrder (h : e.Within a b o l i) {bsi : BuySellIndicator} {qty : Shares}
    {px : Price} {ts : Timestamp} {mpid : MPID} {attributed : Bool} :
    (e.onAddOrder locate id bsi qty px ts mpid attributed).Within (a + 1) b (o + 1) (l + 1)
      (i + 1) := by
  unfold MatchingEngine.onAddOrder
  split
  · exact (h.count fun _ hs => hs.count countsOne_countDuplicate).mono (Nat.le_refl _)
      (Nat.le_refl _) (Nat.le_succ _) (Nat.le_succ _) (Nat.le_succ _)
  · simp only
    have hcreated := h.getOrCreate locate (e.instruments.getOrCreate locate).1.ensureBook
    split
    · refine (Within.count hcreated fun s hs => ?_).mono (Nat.le_refl _) (Nat.le_refl _)
        (Nat.le_succ _) (Nat.le_succ _) (Nat.le_refl _)
      exact hs.count (countsOne_pool (.addOrder locate id bsi qty px ts mpid attributed))
    · exact ((hcreated.setOrderPool _).constructOrder _ _).placeOrder countsOne_countDuplicate
        (countsOne_accept (.addOrder locate id bsi qty px ts mpid attributed)) _ _

/-- Releasing orders takes nothing. -/
theorem Within.releaseSnapshot (h : e.Within a b o l i) (snapshot : List Ptr) :
    (e.releaseSnapshot snapshot).Within a b o l i := by
  unfold MatchingEngine.releaseSnapshot
  induction snapshot generalizing e with
  | nil => exact h
  | cons p snapshot ih => exact ih ((h.eraseOrder (e.orders p).orderId).releaseOrder p)

/-- A cross is one event, and the closing cross takes nothing for the orders it removes. -/
theorem Within.onCrossTrade (h : e.Within a b o l i) (locate : StockLocate) (xtype : CrossType) :
    (e.onCrossTrade locate xtype).Within (a + 1) b o l i := by
  have hcounted := h.count fun _ hs => hs.count countsOne_crossTrades
  unfold MatchingEngine.onCrossTrade
  simp only
  split
  · exact hcounted
  · split
    · exact hcounted
    · exact ((hcounted.releaseSnapshot _).count fun _ hs => hs.dropBook _ _).putBook locate _

/-- A directory message may create the instrument. -/
theorem Within.onStockDirectory (h : e.Within a b o l i) (symbol : Stock) (mc : MarketCategory)
    (fsi : FinancialStatusIndicator) (rls : RoundLotSize) (rlo : RoundLotsOnly)
    (auth : Authenticity) (ssti : ShortScaleThresholdIndicator) (ipo : IPOFlag)
    (luld : LULDReferencePriceTier) (etp : ETPFlag) (elf : ETPLeverageFactor)
    (inv : InverseIndicator) :
    (e.onStockDirectory locate symbol mc fsi rls rlo auth ssti ipo luld etp elf inv).Within (a + 1)
      b o l (i + 1) := by
  unfold MatchingEngine.onStockDirectory
  simp only
  split
  · exact (h.getOrCreate locate _).count fun _ hs => hs.count countsOne_instrumentsRegistered
  · exact (h.getOrCreate locate _).mono (Nat.le_succ _) (Nat.le_refl _) (Nat.le_refl _)
      (Nat.le_refl _) (Nat.le_refl _)

/-- A handler that writes an instrument back counts nothing. -/
theorem Within.setInstrument (h : e.Within a b o l i) (locate : StockLocate) (inst : Instrument) :
    { e with instruments := e.instruments.set locate inst }.Within a b o l i :=
  ⟨h.stats, h.instruments⟩

/-- One call raises no counter by more than one. -/
theorem Within.step {n : Nat} (h : e.Within n n n n n) (c : Call) :
    (e.step c).Within (n + 1) (n + 1) (n + 1) (n + 1) (n + 1) := by
  have hle := Nat.le_refl (n + 1)
  have hsucc := Nat.le_succ n
  have hsame : e.Within (n + 1) (n + 1) (n + 1) (n + 1) (n + 1) :=
    h.mono hsucc hsucc hsucc hsucc hsucc
  cases c with
  | stockDirectory =>
      exact (h.onStockDirectory _ _ _ _ _ _ _ _ _ _ _ _).mono hle hsucc hsucc hsucc hle
  | tradingAction locate state symbol reason =>
      rw [MatchingEngine.step, onTradingAction]
      split
      · exact hsame.setInstrument locate _
      · exact hsame
  | regSho locate action =>
      rw [MatchingEngine.step, onRegSho]
      split
      · exact hsame.setInstrument locate _
      · exact hsame
  | addOrder => exact h.onAddOrder.mono hle hsucc hle hle hle
  | orderExecuted locate id execQty matchNo =>
      rw [MatchingEngine.step, onOrderExecuted]
      exact Within.mono (h.reduceOrder _ (countsOne_accept
        (.orderExecuted locate id execQty matchNo))) hle hle hsucc hsucc hsucc
  | orderExecutedWithPrice locate id execQty matchNo printable execPx =>
      rw [MatchingEngine.step, onOrderExecutedWithPrice]
      exact Within.mono (h.reduceOrder _ (countsOne_accept
        (.orderExecutedWithPrice locate id execQty matchNo printable execPx))) hle hle hsucc hsucc
        hsucc
  | orderCancel locate id cancelledQty =>
      rw [MatchingEngine.step, onOrderCancel]
      exact Within.mono (h.reduceOrder _ (countsOne_accept (.orderCancel locate id cancelledQty)))
        hle hle hsucc hsucc hsucc
  | orderDelete => exact h.onOrderDelete.mono hle hle hsucc hsucc hsucc
  | orderReplace => exact h.onOrderReplace.mono hle hle hle hle hsucc
  | nonCrossTrade =>
      exact (h.count fun _ hs => hs.count countsOne_nonCrossTrades).mono hle hsucc hsucc hsucc
        hsucc
  | crossTrade locate xtype =>
      exact (h.onCrossTrade locate xtype).mono hle hsucc hsucc hsucc hsucc
  | brokenTrade =>
      exact (h.count fun _ hs => hs.count countsOne_brokenTrades).mono hle hsucc hsucc hsucc
        hsucc

/-! ## Runs -/

/-- A fresh engine has counted nothing. -/
theorem create_within (oc lc : UInt64) : (create oc lc).Within 0 0 0 0 0 := by
  refine ⟨⟨?_, ?_, ?_, ?_, ?_, ?_⟩, Nat.le_refl 0⟩
  · simp [eventCounters, create]
  all_goals exact Nat.le_refl 0

/-- After any run the calls bound every counter of the statistics, the collisions of the index and
the number of instruments. -/
theorem counters_le_calls (oc lc : UInt64) (cs : List Call) :
    (∀ c ∈ counters, c (after oc lc cs).stats ≤ cs.length) ∧
      (after oc lc cs).orderIndex.collisions ≤ cs.length ∧
      (after oc lc cs).instruments.count ≤ cs.length := by
  have hrun : (after oc lc cs).Within cs.length cs.length cs.length cs.length cs.length ∧
      (after oc lc cs).orderIndex.collisions ≤ cs.length := by
    refine prefix_induction (P := fun cs =>
      (after oc lc cs).Within cs.length cs.length cs.length cs.length cs.length ∧
        (after oc lc cs).orderIndex.collisions ≤ cs.length) cs
      ⟨create_within oc lc, Nat.le_refl 0⟩ fun pre c _ ⟨hwithin, hcollisions⟩ => ?_
    rw [after, run_concat, List.length_append, List.length_singleton]
    refine ⟨hwithin.step c, ?_⟩
    rcases moves_step (after oc lc pre) c with hkeeps | hspills
    · exact hkeeps.collisions.trans_le (Nat.le_succ_of_le hcollisions)
    · exact hspills.collisions.trans_le (Nat.succ_le_succ hcollisions)
  obtain ⟨hwithin, hcollisions⟩ := hrun
  exact ⟨hwithin.stats.counters_le, hcollisions, hwithin.instruments⟩

/-- In a run of fewer than 2^64 calls a counter of 64 bits holds the number. -/
theorem counters_fit (oc lc : UInt64) (cs : List Call) (hcalls : cs.length < 2 ^ 64) :
    (∀ c ∈ counters, (UInt64.ofNat (c (after oc lc cs).stats)).toNat = c (after oc lc cs).stats) ∧
      (UInt64.ofNat (after oc lc cs).orderIndex.collisions).toNat =
        (after oc lc cs).orderIndex.collisions ∧
      (UInt64.ofNat (after oc lc cs).instruments.count).toNat =
        (after oc lc cs).instruments.count := by
  obtain ⟨hstats, hcollisions, hinstruments⟩ := counters_le_calls oc lc cs
  exact ⟨fun c hc => UInt64.toNat_ofNat_of_lt' ((hstats c hc).trans_lt hcalls),
    UInt64.toNat_ofNat_of_lt' (hcollisions.trans_lt hcalls),
    UInt64.toNat_ofNat_of_lt' (hinstruments.trans_lt hcalls)⟩

end MatchingEngine
end ItchParser
