import ItchParser.Engine.Runs
import ItchParser.Market.Runs
import ItchParser.Market.Tally

/-!
# Closing crosses drain the engine

A closing cross takes exactly the orders and levels of one book out of all structures. After closing
crosses on all books nothing is live any more, and the engine goes on like a fresh one. `resume`
says what its statistics are then: the counters go on from where they stood.
-/

namespace ItchParser

open Ladder OrderBook Machine EngineStats

/-! ## Going on with the statistics -/

/-- The statistics after a further session, when nothing was live before it. The counters go on
from `base`, and `s` are the statistics of the session alone. -/
def EngineStats.resume (base s : EngineStats) : EngineStats where
  addOrders := base.addOrders + s.addOrders
  addOrdersWithMpid := base.addOrdersWithMpid + s.addOrdersWithMpid
  orderExecuted := base.orderExecuted + s.orderExecuted
  orderExecutedWithPrice := base.orderExecutedWithPrice + s.orderExecutedWithPrice
  orderCancel := base.orderCancel + s.orderCancel
  orderDelete := base.orderDelete + s.orderDelete
  orderReplace := base.orderReplace + s.orderReplace
  nonCrossTrades := base.nonCrossTrades + s.nonCrossTrades
  crossTrades := base.crossTrades + s.crossTrades
  brokenTrades := base.brokenTrades + s.brokenTrades
  instrumentsRegistered := base.instrumentsRegistered + s.instrumentsRegistered
  addRejectedPoolExhausted := base.addRejectedPoolExhausted + s.addRejectedPoolExhausted
  addRejectedLevelPoolExhausted :=
    base.addRejectedLevelPoolExhausted + s.addRejectedLevelPoolExhausted
  replaceRejectedPoolExhausted :=
    base.replaceRejectedPoolExhausted + s.replaceRejectedPoolExhausted
  duplicateAdds := base.duplicateAdds + s.duplicateAdds
  locateMismatches := base.locateMismatches + s.locateMismatches
  levelMissing := base.levelMissing + s.levelMissing
  unknownOrderEvents := base.unknownOrderEvents + s.unknownOrderEvents
  liveOrders := s.liveOrders
  liveLevels := s.liveLevels
  peakLiveOrders := max base.peakLiveOrders s.peakLiveOrders
  peakLiveLevels := max base.peakLiveLevels s.peakLiveLevels
  poolExhausted := base.poolExhausted + s.poolExhausted

/-- Nothing has happened in the further session yet. -/
theorem EngineStats.resume_start {base : EngineStats} (horders : base.liveOrders = 0)
    (hlevels : base.liveLevels = 0) : base.resume {} = base := by
  obtain ⟨⟩ := base
  simp only at horders hlevels
  simp [resume, horders, hlevels]

/-- What a call counts does not depend on the counters. -/
theorem Tally.resume {f : EngineStats → EngineStats} (h : Tally f) (base s : EngineStats) :
    f (base.resume s) = base.resume (f s) := by
  induction h generalizing s with
  | comp _ _ ihf ihg => simp only [ihf, ihg]
  | mismatch home locate => simp only [countMismatch_eq, EngineStats.resume, Nat.add_assoc]
  | raiseOrders => simp only [raiseOrders_eq, EngineStats.resume, max_assoc]
  | raiseLevels rc =>
      simp only [raiseLevels_eq, EngineStats.resume]
      split <;> simp only [max_assoc]
  | dropOrder => simp only [dropOrder_eq, EngineStats.resume]
  | dropLevel rc => simp only [dropLevel_eq, EngineStats.resume]
  | dropBook orders levels => simp only [dropBook_eq, EngineStats.resume]
  | _ => rfl

/-! ## The market after closing crosses -/

/-- A closing cross on each of the locates. -/
def closings (locates : List StockLocate) : List Call :=
  locates.map fun locate => .crossTrade locate CrossType.Closing

namespace Market

variable {caps : Capacities} {m m' : Market}

/-- A closing cross ends the orders of its locate. -/
theorem crossTrade_closing_live (m : Market) (locate : StockLocate) :
    (m.crossTrade locate CrossType.Closing).live = m.live.filter fun d => d.locate ≠ locate := by
  unfold Market.crossTrade
  simp only [ne_eq, not_true_eq_false, if_false]
  rfl

/-- Closing crosses end the orders of their locates, in any order. -/
theorem run_closings_live (locates : List StockLocate) (m : Market) :
    (run (step caps) m (closings locates)).live = m.live.filter fun d => d.locate ∉ locates := by
  induction locates generalizing m with
  | nil => exact (List.filter_eq_self.mpr fun d _ => by simp).symm
  | cons locate locates ih =>
      show (run (step caps) (m.crossTrade locate CrossType.Closing) (closings locates)).live = _
      rw [ih, crossTrade_closing_live, List.filter_filter]
      refine List.filter_congr fun d _ => ?_
      simp only [List.mem_cons, not_or, ne_eq, Bool.decide_and, Bool.and_comm]

/-- Runs from markets with the same live orders. -/
theorem parallel_run (h : m.live = m'.live) (cs : List Call)
    (hcs : ∀ c ∈ cs, c.isDirectory = false) :
    Parallel m m' (run (step caps) m cs) (run (step caps) m' cs) := by
  refine prefix_induction (P := fun pre => Parallel m m' (run (step caps) m pre)
    (run (step caps) m' pre)) cs (.refl h) fun pre c hpre ih => ?_
  rw [run_concat, run_concat]
  exact ih.trans (parallel_step ih.live (hcs c (hpre.subset (by simp))))

/-- A market without live orders goes on like the empty market. -/
theorem run_resumes (hlive : m.live = []) (hcounts : m.Counts) (cs : List Call)
    (hcs : ∀ c ∈ cs, c.isDirectory = false) :
    (run (step caps) m cs).live = (after caps cs).live ∧
      (run (step caps) m cs).stats = m.stats.resume (after caps cs).stats := by
  obtain ⟨hsame, f, hf, hstats, hfresh⟩ :=
    (show Parallel m empty (run (step caps) m cs) (after caps cs) from parallel_run hlive cs hcs)
  have horders : m.stats.liveOrders = 0 := by rw [hcounts.liveOrders, hlive, List.length_nil]
  have hlevels : m.stats.liveLevels = 0 := by
    rw [hcounts.liveLevels, hlive]
    exact empty_counts.liveLevels.symm
  refine ⟨hsame, ?_⟩
  calc (run (step caps) m cs).stats = f (m.stats.resume {}) := by
        rw [hstats, resume_start horders hlevels]
    _ = m.stats.resume (f {}) := hf.resume _ _
    _ = m.stats.resume (after caps cs).stats := by rw [hfresh]; rfl

end Market

namespace MatchingEngine

variable {e : MatchingEngine} {caps : Capacities} {m : Market} {locate : StockLocate}
  {id : OrderReferenceNumber}

/-! ## The orders of one book -/

/-- The ids of the orders in one book, in traversal order. -/
def bookIds (e : MatchingEngine) (locate : StockLocate) : List OrderReferenceNumber :=
  ((e.bookView locate .buy ++ e.bookView locate .sell).flatMap LevelView.orders).map
    OrderData.orderId

/-- The number of levels in one book. -/
def bookLevels (e : MatchingEngine) (locate : StockLocate) : Nat :=
  (e.bookView locate .buy).length + (e.bookView locate .sell).length

/-- The two sides of a book hold the orders of the locate. -/
theorem bookOf_orders_perm (live : List OrderData) (locate : StockLocate) :
    ((bookOf live locate .buy ++ bookOf live locate .sell).flatMap Prod.snd).Perm
      (live.filter fun d => d.locate = locate) := by
  have hside : ∀ s, ((bookOf live locate s).flatMap Prod.snd).Perm
      ((live.filter fun d => d.locate = locate).filter fun d => d.side = s) := by
    intro s
    refine (ladder_perm (pricePolicy s) OrderData.priceCents _).trans (List.Perm.of_eq ?_)
    rw [List.filter_filter]
    exact List.filter_congr fun d _ => by simp only [Bool.decide_and, Bool.and_comm]
  have hsell : ((live.filter fun d => d.locate = locate).filter fun d => d.side = .sell) =
      (live.filter fun d => d.locate = locate).filter fun d => !decide (d.side = .buy) := by
    refine List.filter_congr fun d _ => ?_
    cases d.side <;> rfl
  rw [List.flatMap_append]
  refine ((hside .buy).append (hside .sell)).trans ?_
  rw [hsell]
  exact List.filter_append_perm _ _

/-- The ids on a book are those of the live orders of the locate. -/
theorem Refines.bookIds_perm (h : e.Refines caps m) (locate : StockLocate) :
    (e.bookIds locate).Perm ((m.live.filter fun d => d.locate = locate).map OrderData.orderId) := by
  have horders : (e.bookView locate .buy ++ e.bookView locate .sell).flatMap LevelView.orders =
      (bookOf m.live locate .buy ++ bookOf m.live locate .sell).flatMap Prod.snd := by
    rw [h.bookView_eq, h.bookView_eq, ← List.map_append, List.flatMap_map]
    rfl
  unfold bookIds
  rw [horders]
  exact (bookOf_orders_perm m.live locate).map _

/-- The levels of a book are those that its orders call for. -/
theorem Refines.bookLevels_eq (h : e.Refines caps m) (locate : StockLocate) :
    e.bookLevels locate = levelsAt m.live locate := by
  unfold bookLevels levelsAt
  rw [h.bookView_eq, h.bookView_eq, List.length_map, List.length_map]
  rfl

/-- An indexed order is in the book of a locate exactly when its id is. -/
theorem Refines.mem_bookIds (h : e.Refines caps m) {o : Ptr} (ho : e.findOrder id = some o) :
    id ∈ e.bookIds locate ↔ (e.orders o).locate = locate := by
  obtain ⟨_, _, _, _, hshows⟩ := h
  obtain ⟨-, -, hfind⟩ := hshows.find_some ho
  obtain ⟨hlive, hid⟩ := Market.find_eq_some.mp hfind
  rw [(hshows.refines.bookIds_perm locate).mem_iff, List.mem_map]
  constructor
  · rintro ⟨d, hd, hdid⟩
    obtain ⟨hd, hl⟩ := List.mem_filter.mp hd
    have hsame : m.find id = some d := Market.find_eq_some.mpr ⟨hd, hdid⟩
    rw [hfind, Option.some.injEq] at hsame
    rw [← of_decide_eq_true hl, ← hsame]
    rfl
  · intro hl
    exact ⟨_, List.mem_filter.mpr ⟨hlive, decide_eq_true hl⟩, hid⟩

/-- From `e` to `e'` the book of `locate` is emptied and taken out of index, pools and counters, and
everything else stays. -/
structure ClosesBook (e e' : MatchingEngine) (locate : StockLocate) : Prop where
  emptied : ∀ s, e'.bookView locate s = []
  indexed : ∀ id ∈ e.bookIds locate, (e.findOrder id).isSome
  removed : ∀ id ∈ e.bookIds locate, e'.findOrder id = none
  kept : ∀ id, id ∉ e.bookIds locate → e'.findOrder id = e.findOrder id
  orders : ∀ id o, e'.findOrder id = some o → e'.orders o = e.orders o
  others : ∀ l, l ≠ locate → ∀ s, e'.bookView l s = e.bookView l s
  liveOrders : e'.stats.liveOrders + (e.bookIds locate).length = e.stats.liveOrders
  liveLevels : e'.stats.liveLevels + e.bookLevels locate = e.stats.liveLevels
  freeOrders : e'.orderPool.freeCount = e.orderPool.freeCount + (e.bookIds locate).length
  freeLevels : e'.levelPool.freeCount = e.levelPool.freeCount + e.bookLevels locate

/-- What one closing cross takes off the counters and puts back into the pools. -/
theorem Refines.closesBook (h : e.Refines caps m) (hcounts : m.Counts) (locate : StockLocate) :
    ClosesBook e (e.onCrossTrade locate CrossType.Closing) locate := by
  have h' := h.onCrossTrade locate CrossType.Closing
  have hcounts' : (m.crossTrade locate CrossType.Closing).Counts := hcounts.crossTrade
  have hlive := Market.crossTrade_closing_live m locate
  have hlen : (m.live.filter fun d => d.locate ≠ locate).length + (e.bookIds locate).length =
      m.live.length := by
    have hsplit := (List.filter_append_perm (fun d => decide (d.locate = locate)) m.live).length_eq
    rw [(h.bookIds_perm locate).length_eq, List.length_map]
    rw [List.length_append] at hsplit
    simp only [← decide_not] at hsplit
    simp only [ne_eq]
    omega
  have hlevels := levelCount_clear m.live locate
  rw [← h.bookLevels_eq] at hlevels
  have hfind := fun id o => (h.onCrossTrade_find locate id o).1
  refine ⟨fun s => ?_, fun id hid => ?_, fun id hid => ?_, fun id hid => ?_,
    fun id o => (h.onCrossTrade_find locate id o).2, fun l hl s => ?_, ?_, ?_, ?_, ?_⟩
  · rw [h'.bookView_eq, Market.book, hlive]
    unfold bookOf
    rw [restingOn_of_other fun d hd => by simpa using (List.mem_filter.mp hd).2]
    rfl
  · obtain ⟨_, _, _, _, hshows⟩ := h
    rw [hshows.find_isSome]
    obtain ⟨d, hd, rfl⟩ := List.mem_map.mp ((hshows.refines.bookIds_perm locate).mem_iff.mp hid)
    rw [Market.find_eq_some.mpr ⟨(List.mem_filter.mp hd).1, rfl⟩]
    rfl
  · -- an order that is still found is of another locate
    cases hnew : (e.onCrossTrade locate CrossType.Closing).findOrder id with
    | none => rfl
    | some o =>
        obtain ⟨hold, hl⟩ := (hfind id o).mp hnew
        exact absurd ((h.mem_bookIds hold).mp hid) hl
  · refine Option.ext fun o => (hfind id o).trans (and_iff_left_of_imp fun hold => ?_)
    exact fun hl => hid ((h.mem_bookIds hold).mpr hl)
  · rw [h'.bookView_eq, h.bookView_eq, Market.book, hlive, bookOf_clear_of_ne hl]
    rfl
  · rw [h'.stats_eq, h.stats_eq, hcounts'.liveOrders, hcounts.liveOrders, hlive]
    exact hlen
  · rw [h'.stats_eq, h.stats_eq, hcounts'.liveLevels, hcounts.liveLevels, hlive]
    exact hlevels
  · have hfree := h.orderPool_freeCount
    have hfree' := h'.orderPool_freeCount
    rw [hlive] at hfree'
    omega
  · have hfree := h.levelPool_freeCount
    have hfree' := h'.levelPool_freeCount
    rw [hlive] at hfree'
    omega

/-! ## A drained engine -/

/-- Nothing is live: both pools are free and the index is empty. -/
structure Drained (e : MatchingEngine) : Prop where
  freeOrders : e.orderPool.freeCount = e.orderPool.capacity.toNat
  freeLevels : e.levelPool.freeCount = e.levelPool.capacity.toNat
  slots : ∀ i, e.orderIndex.slots i = none
  overflow : e.orderIndex.overflow = ∅
  count : e.orderIndex.count = 0
  liveOrders : e.stats.liveOrders = 0
  liveLevels : e.stats.liveLevels = 0

/-- Without live orders everything is free. -/
theorem Refines.drained (h : e.Refines caps m) (hcounts : m.Counts) (hlive : m.live = []) :
    e.Drained := by
  have horders := h.orderPool_freeCount
  have hlevels := h.levelPool_freeCount
  have hstats := h.stats_eq
  have hnone : levelCount m.live = 0 := by
    rw [hlive]
    exact Market.empty_counts.liveLevels.symm
  obtain ⟨arrival, _, _, _, hshows⟩ := h
  obtain rfl : arrival = [] := List.map_eq_nil_iff.mp (hshows.live.symm.trans hlive)
  refine ⟨?_, ?_, fun i => ?_, ?_, hshows.index.count_eq, ?_, ?_⟩
  · rw [hlive, List.length_nil] at horders
    exact horders.trans (congrArg Capacities.orders hshows.capacities).symm
  · rw [hnone] at hlevels
    exact hlevels.trans (congrArg Capacities.levels hshows.capacities).symm
  · cases hslot : e.orderIndex.slots i with
    | none => rfl
    | some p => cases (hshows.index.slot_sound i p hslot).1
  · refine AList.ext_iff.mpr (List.eq_nil_iff_forall_not_mem.mpr fun x hx => ?_)
    have hlookup := AList.mem_lookup_iff.mpr hx
    cases (hshows.index.overflow_sound x.1 x.2 hlookup).1
  · rw [hstats, hcounts.liveOrders, hlive, List.length_nil]
  · rw [hstats, hcounts.liveLevels, hnone]

/-- Every live order is in a book. -/
theorem Refines.book_isSome (h : e.Refines caps m) {d : OrderData} (hd : d ∈ m.live) :
    (e.instruments.book d.locate).isSome := by
  obtain ⟨_, _, _, _, hshows⟩ := h
  rw [hshows.live] at hd
  obtain ⟨p, hp, rfl⟩ := List.mem_map.mp hd
  exact hshows.homes p hp

/-- Only the locates of calls have books. -/
theorem mem_locates_of_book (oc lc : UInt64) (cs : List Call) (hcap : oc.toNat < 4294967296)
    (hroomy : ∀ pre, pre <+: cs → (after oc lc pre).Roomy)
    (hbook : ((after oc lc cs).instruments.book locate).isSome) :
    locate ∈ cs.map Call.locate := by
  obtain ⟨_, _, _, _, hshows⟩ := after_refines oc lc cs hcap hroomy
  obtain ⟨b, hb⟩ := Option.isSome_iff_exists.mp hbook
  obtain ⟨inst, hinst, -⟩ := Option.bind_eq_some_iff.mp hb
  refine Market.mem_locates_of_known ⟨oc.toNat, lc.toNat⟩ cs ?_
  rw [hshows.known]
  exact congrArg Option.isSome hinst

/-- Closing crosses on every locate with a book drain an engine. -/
theorem Refines.closings_live (h : e.Refines caps m) {locates : List StockLocate}
    (hcovers : ∀ locate, (e.instruments.book locate).isSome → locate ∈ locates) :
    (run (Market.step caps) m (closings locates)).live = [] := by
  rw [Market.run_closings_live]
  refine List.filter_eq_nil_iff.mpr fun d hd => ?_
  simpa using hcovers d.locate (h.book_isSome hd)

/-- Closing crosses need no room in the level maps. -/
theorem Refines.closings (h : e.Refines caps m) (locates : List StockLocate) :
    (run step e (closings locates)).Refines caps (run (Market.step caps) m (closings locates)) := by
  induction locates generalizing e m with
  | nil => exact h
  | cons locate locates ih => exact ih (h.onCrossTrade locate CrossType.Closing)

/-- An engine that stands for a market without live orders goes on like a fresh one. -/
theorem Refines.resumes {oc lc : UInt64} (h : e.Refines ⟨oc.toNat, lc.toNat⟩ m)
    (hcounts : m.Counts) (hlive : m.live = []) (later : List Call) (hcap : oc.toNat < 4294967296)
    (hlater : ∀ c ∈ later, c.isDirectory = false)
    (hroomy : ∀ pre, pre <+: later → (run step e pre).Roomy) :
    (∀ locate s, (run step e later).bookView locate s = (after oc lc later).bookView locate s) ∧
      (run step e later).stats = e.stats.resume (after oc lc later).stats := by
  have hresumes : ∀ pre, pre <+: later →
      (run (Market.step ⟨oc.toNat, lc.toNat⟩) m pre).live =
          (Market.after ⟨oc.toNat, lc.toNat⟩ pre).live ∧
        (run (Market.step ⟨oc.toNat, lc.toNat⟩) m pre).stats =
          m.stats.resume (Market.after ⟨oc.toNat, lc.toNat⟩ pre).stats := fun pre hpre =>
    Market.run_resumes hlive hcounts pre fun c hc => hlater c (hpre.subset hc)
  have hrefines : ∀ pre, pre <+: later → (run step e pre).Refines ⟨oc.toNat, lc.toNat⟩
      (run (Market.step ⟨oc.toNat, lc.toNat⟩) m pre) := fun pre hpre =>
    run_refines h pre fun p hp hr => hr.fits (hroomy p (hp.trans hpre)) hcap
  -- the fresh engine has the same live orders at every prefix, so its books fit as well
  have hfresh : (after oc lc later).Refines ⟨oc.toNat, lc.toNat⟩
      (Market.after ⟨oc.toNat, lc.toNat⟩ later) :=
    run_refines (create_refines oc lc) later fun pre hpre _ =>
      ((hrefines pre hpre).fits (hroomy pre hpre) hcap).of_live (hresumes pre hpre).1
  have hend := hrefines later (List.prefix_refl _)
  obtain ⟨hsame, hstats⟩ := hresumes later (List.prefix_refl _)
  refine ⟨fun locate s => ?_, ?_⟩
  · rw [hend.bookView_eq, hfresh.bookView_eq]
    unfold Market.book
    rw [hsame]
  · rw [hend.stats_eq, hfresh.stats_eq, h.stats_eq, hstats]

/-- A closing cross drains its book. After closing crosses on every locate with a book, in any
order, the engine is drained, and it then goes through any calls other than the stock directory's
with the books and the counts of a fresh engine. -/
theorem closing_crosses_drain (oc lc : UInt64) (cs : List Call) (hcap : oc.toNat < 4294967296)
    (hroomy : ∀ pre, pre <+: cs → (after oc lc pre).Roomy) :
    (∀ locate, ClosesBook (after oc lc cs)
        ((after oc lc cs).onCrossTrade locate CrossType.Closing) locate) ∧
      ∀ locates : List StockLocate,
        (∀ locate, ((after oc lc cs).instruments.book locate).isSome → locate ∈ locates) →
        (after oc lc (cs ++ closings locates)).Drained ∧
          ∀ later : List Call, (∀ c ∈ later, c.isDirectory = false) →
            (∀ pre, pre <+: later → (after oc lc (cs ++ closings locates ++ pre)).Roomy) →
            (∀ locate s, (after oc lc (cs ++ closings locates ++ later)).bookView locate s =
              (after oc lc later).bookView locate s) ∧
            (after oc lc (cs ++ closings locates ++ later)).stats =
              (after oc lc (cs ++ closings locates)).stats.resume (after oc lc later).stats := by
  have hopen := after_refines oc lc cs hcap hroomy
  refine ⟨fun locate => hopen.closesBook (Market.counts_after _ cs) locate,
    fun locates hcovers => ?_⟩
  have hclosed : (after oc lc (cs ++ closings locates)).Refines ⟨oc.toNat, lc.toNat⟩
      (Market.after ⟨oc.toNat, lc.toNat⟩ (cs ++ closings locates)) := by
    rw [after, Market.after, run_append, run_append]
    exact hopen.closings locates
  have hempty : (Market.after ⟨oc.toNat, lc.toNat⟩ (cs ++ closings locates)).live = [] := by
    rw [Market.after, run_append]
    exact hopen.closings_live hcovers
  have hcounts := Market.counts_after ⟨oc.toNat, lc.toNat⟩ (cs ++ closings locates)
  refine ⟨hclosed.drained hcounts hempty, fun later hlater hroomy' => ?_⟩
  have happend : ∀ pre, after oc lc (cs ++ closings locates ++ pre) =
      run step (after oc lc (cs ++ closings locates)) pre := fun pre => run_append _ _
  simp only [happend] at hroomy' ⊢
  exact hclosed.resumes hcounts hempty later hcap hlater hroomy'

/-- The sample session, closed on both instruments, and then played again. -/
theorem closing_crosses_drain_sample :
    (∀ locate s, (after 4 4 (sampleSession ++ closings [2, 1] ++ sampleSession)).bookView locate s =
        (after 4 4 sampleSession).bookView locate s) ∧
      (after 4 4 (sampleSession ++ closings [2, 1] ++ sampleSession)).stats =
        (after 4 4 (sampleSession ++ closings [2, 1])).stats.resume
          (after 4 4 sampleSession).stats := by
  refine ((closing_crosses_drain 4 4 sampleSession (by decide)
    fun pre _ => sampleSession_roomy pre).2 [2, 1] fun locate hbook => ?_).2 sampleSession
    (by decide) fun pre _ => sampleSession_roomy _
  have hmem := mem_locates_of_book 4 4 sampleSession (by decide)
    (fun pre _ => sampleSession_roomy pre) hbook
  simp only [sampleSession, Call.locate, List.map_cons, List.map_nil, List.mem_cons,
    List.not_mem_nil, or_false] at hmem ⊢
  tauto

end MatchingEngine
end ItchParser
