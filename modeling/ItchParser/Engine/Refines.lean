import ItchParser.Engine.Layout
import ItchParser.Market.Live

/-!
# The engine refines the market

`Shows` relates an engine to the market it stands for: the market's live orders are what the
engine's live slots say, in order of arrival. `Refines` forgets the slots. Each handler is shown to
do what `Market.step` says, as long as the market fits.
-/

namespace ItchParser

open Ladder OrderBook Market

/-- Moving a ladder along a function moves the question whether an arrival opens a group. -/
theorem opens_rename {α β κ : Type*} [DecidableEq κ] {P : Policy κ} {key : α → κ} {key' : β → κ}
    {f : α → β} {x : α} (ls : List (κ × List α)) (hkey : key' (f x) = key x) :
    opens P key' (f x) (rename f ls) = opens P key x ls := by
  simp only [opens, rename, hkey, List.any_map, Function.comp_def]

namespace MatchingEngine

/-- The engine stands for the market `m`, with its live orders in the slots `arrival`. -/
structure Shows (e : MatchingEngine) (caps : Capacities) (m : Market)
    (arrival held freeOrders freeLevels : List Ptr) (rungs : StockLocate → Side → List Rung) :
    Prop extends Layout e arrival held freeOrders freeLevels rungs where
  capacities : e.capacities = caps
  live : m.live = arrival.map (orderData e.orders)
  known : m.known = fun l => (e.instruments.slots l).isSome
  stats : m.stats = e.stats

/-- The engine stands for the market `m`. -/
def Refines (e : MatchingEngine) (caps : Capacities) (m : Market) : Prop :=
  ∃ arrival freeOrders freeLevels rungs,
    e.Shows caps m arrival [] freeOrders freeLevels rungs

variable {e : MatchingEngine} {caps : Capacities} {m : Market}
  {arrival held freeOrders freeLevels freeLevels' : List Ptr}
  {rungs : StockLocate → Side → List Rung} {rungs' : Side → List Rung} {locate : StockLocate}
  {b : OrderBook} {st : BookState} {data : Ptr → OrderData} {o p : Ptr}
  {id : OrderReferenceNumber}

/-- An engine that holds no slot back stands for the market. -/
theorem Shows.refines (h : e.Shows caps m arrival [] freeOrders freeLevels rungs) :
    e.Refines caps m :=
  ⟨_, _, _, _, h⟩

/-- The same update of both statistics. -/
theorem Shows.count (h : e.Shows caps m arrival held freeOrders freeLevels rungs)
    (f : EngineStats → EngineStats) :
    (e.count f).Shows caps (m.count f) arrival held freeOrders freeLevels rungs :=
  ⟨h.toLayout.count f, h.capacities, h.live, h.known, congrArg f h.stats⟩

/-- The same update of both statistics. -/
theorem Refines.count (h : e.Refines caps m) (f : EngineStats → EngineStats) :
    (e.count f).Refines caps (m.count f) := by
  obtain ⟨_, _, _, _, h⟩ := h
  exact (h.count f).refines

/-! ## Reading the market off the engine -/

/-- The index fails where the market does. -/
theorem Shows.find_none (h : e.Shows caps m arrival held freeOrders freeLevels rungs) :
    e.findOrder id = none ↔ m.find id = none := by
  rw [findOrder, h.index.find_none, find_eq_none, h.live]
  simp [orderData]

/-- What the index finds is live, and the market's order with the id. -/
theorem Shows.find_some (h : e.Shows caps m arrival held freeOrders freeLevels rungs)
    (hfind : e.findOrder id = some o) :
    o ∈ arrival ∧ (e.orders o).orderId = id ∧ m.find id = some (orderData e.orders o) := by
  obtain ⟨ho, hid⟩ := h.index.find_some.mp hfind
  refine ⟨ho, hid, find_eq_some.mpr ⟨?_, hid⟩⟩
  rw [h.live]
  exact List.mem_map_of_mem ho

/-- Index and market know the same ids. -/
theorem Shows.find_isSome (h : e.Shows caps m arrival held freeOrders freeLevels rungs) :
    (e.findOrder id).isSome = (m.find id).isSome := by
  rw [Bool.eq_iff_iff, ← not_iff_not]
  simpa using h.find_none

/-- A market that fits has rungs that fit. -/
theorem Shows.fits (h : e.Shows caps m arrival held freeOrders freeLevels rungs) (hfit : m.Fits)
    (locate : StockLocate) :
    (∀ s, (rungs locate s).length ≤ kPriceLevelMapCapacity) ∧
      ∀ s, ∀ g ∈ rungs locate s, g.2.length ≤ 4294967296 := by
  refine ⟨fun s => ?_, fun s g hg => ?_⟩
  · rw [h.holds.length_eq, ← h.live]
    exact hfit.levels locate s
  · have hmem : (((e.levels g.1).priceCents, g.2.map (orderData e.orders)) :
        Price × List OrderData) ∈ m.book locate s := by
      rw [book, h.live, ← h.holds.book_eq]
      exact List.mem_map_of_mem (List.mem_map_of_mem hg)
    simpa using hfit.orders locate s _ hmem

/-- A book has the levels that the market counts. -/
theorem Shows.levelTotal (h : e.Shows caps m arrival held freeOrders freeLevels rungs)
    (locate : StockLocate) : levelTotal (rungs locate) = levelsAt m.live locate := by
  rw [h.live, h.holds.levelTotal_eq]

/-- The level pool is exhausted when there are as many levels as it has slots. -/
theorem Shows.levels_full (h : e.Shows caps m arrival held freeOrders freeLevels rungs) :
    freeLevels = [] ↔ caps.levels ≤ levelCount m.live := by
  have hcount := h.holds.levelCount_eq
  rw [← h.live, show e.levelPool.capacity.toNat = caps.levels from
    congrArg Capacities.levels h.capacities] at hcount
  rw [← List.length_eq_zero_iff]
  omega

/-- The order pool is exhausted when there are as many live orders as it has slots. -/
theorem Shows.orders_full (h : e.Shows caps m arrival [] freeOrders freeLevels rungs) :
    freeOrders = [] ↔ caps.orders ≤ m.live.length := by
  have hslots := h.orderSlots
  rw [show e.orderPool.capacity.toNat = caps.orders from
    congrArg Capacities.orders h.capacities] at hslots
  rw [← List.length_eq_zero_iff, h.live, List.length_map]
  simp only [List.length_nil] at hslots
  omega

/-- The question of `add_order` and the question of the market. -/
theorem Shows.opens (h : e.Shows caps m arrival held freeOrders freeLevels rungs) (o : Ptr) :
    BookState.opensLevel e.orders (atLocate (orderData e.orders) (e.orders o).locate arrival) o =
      opensFor m.live (orderData e.orders o) := by
  have hbook := h.holds.book_eq (e.orders o).locate (e.orders o).side
  have hgrouping := ((h.holds.books (e.orders o).locate).sides (e.orders o).side).grouping
  rw [BookState.opensLevel, opensFor, h.live]
  show _ = Ladder.opens (pricePolicy (e.orders o).side) _ (orderData e.orders o)
    (bookOf _ (e.orders o).locate (e.orders o).side)
  rw [← hbook, hgrouping]
  exact (opens_rename _ rfl).symm

/-! ## The pieces of the handlers -/

/-- The slot that is held back goes to the pool again. -/
theorem Shows.releaseHeld (h : e.Shows caps m arrival [o] freeOrders freeLevels rungs) :
    (e.releaseOrder o).Shows caps m arrival [] (o :: freeOrders) freeLevels rungs := by
  refine ⟨h.toLayout.releaseHeld, h.capacities, ?_, h.known, h.stats⟩
  rw [h.live]
  refine List.map_congr_left fun p hp => ?_
  have hne : p ≠ o := fun he => h.apart o (by simp) (he ▸ hp)
  show _ = (Function.update e.orders o _ p).toOrderData
  rw [Function.update_of_ne hne]
  rfl

/-- An acquired slot is held back until its order is placed. -/
theorem Shows.hold (h : e.Shows caps m arrival [] (o :: freeOrders) freeLevels rungs) :
    (e.setOrderPool { e.orderPool with head := freeOrders.head? }).Shows caps m arrival [o]
      freeOrders freeLevels rungs :=
  ⟨h.toLayout.hold, h.capacities, h.live, h.known, h.stats⟩

/-- The slot that is held back may be written. -/
theorem Shows.construct (h : e.Shows caps m arrival [o] freeOrders freeLevels rungs)
    (order : Order) :
    (e.constructOrder o order).Shows caps m arrival [o] freeOrders freeLevels rungs := by
  refine ⟨h.toLayout.construct order, h.capacities, ?_, h.known, h.stats⟩
  rw [h.live]
  refine List.map_congr_left fun p hp => ?_
  show _ = (Function.update e.orders o order p).toOrderData
  rw [Function.update_of_ne (ne_of_mem_of_not_mem hp (h.apart o (by simp)))]
  rfl

/-- The data of the order that was constructed. -/
theorem constructOrder_data (order : Order) :
    orderData (e.constructOrder o order).orders o = order.toOrderData := by
  show (Function.update e.orders o order o).toOrderData = _
  rw [Function.update_self]

/-- Writing a book leaves the known locates alone. -/
theorem putBook_known (l : StockLocate) :
    ((e.putBook locate st).instruments.slots l).isSome = (e.instruments.slots l).isSome :=
  InstrumentMap.setBook_isSome

/-- Removing an order from book, index and pool removes it from the market. -/
theorem Shows.takeOff (h : e.Shows caps m arrival held freeOrders freeLevels rungs)
    (ho : o ∈ arrival) (hbook : e.instruments.book (e.orders o).locate = some b)
    (hupdate : (e.bookState b).Update st (fun q => ∃ l, OnRung (rungs l) q) freeLevels freeLevels'
      (atLocate (orderData e.orders) (e.orders o).locate arrival)
      ((atLocate (orderData e.orders) (e.orders o).locate arrival).filter fun p => p ≠ o)
      (rungs (e.orders o).locate) rungs' data)
    (hid : (data o).orderId = (e.orders o).orderId)
    (hlocate : (data o).locate = (e.orders o).locate)
    (hothers : ∀ p, p ≠ o → data p = orderData e.orders p) :
    (((e.putBook (e.orders o).locate st).eraseOrder (e.orders o).orderId).releaseOrder o).Shows caps
      (m.remove (orderData e.orders o)) (arrival.filter fun p => p ≠ o) held (o :: freeOrders)
      freeLevels' (Function.update rungs (e.orders o).locate rungs') := by
  have hids : ∀ p, (data p).orderId = (e.orders p).orderId := by
    intro p
    by_cases hp : p = o
    · rw [hp, hid]
    · rw [hothers p hp]; rfl
  have hlocates : ∀ p, (data p).locate = (e.orders p).locate := by
    intro p
    by_cases hp : p = o
    · rw [hp, hlocate]
    · rw [hothers p hp]; rfl
  refine ⟨h.toLayout.takeOff ho hbook hupdate hids hlocates, ?_, ?_, ?_, h.stats⟩
  · rw [← h.capacities]
    show Capacities.mk _ st.levelPool.capacity.toNat = _
    rw [hupdate.capacity]
    rfl
  · show without m.live (e.orders o).orderId = _
    rw [without, h.live, List.filter_map]
    have hfilter : arrival.filter ((fun d : OrderData => decide (d.orderId ≠
        (e.orders o).orderId)) ∘ orderData e.orders) = arrival.filter fun p => p ≠ o := by
      refine List.filter_congr fun p hp => ?_
      have := h.id_iff ho hp
      simp only [Function.comp_apply, decide_eq_decide, ne_eq, not_iff_not]
      exact this
    rw [hfilter]
    refine List.map_congr_left fun p hp => ?_
    have hne : p ≠ o := by simpa using (List.mem_filter.mp hp).2
    show _ = (Function.update st.orders o _ p).toOrderData
    rw [Function.update_of_ne hne, ← hothers p hne, ← hupdate.data_eq]
    rfl
  · rw [show (m.remove (orderData e.orders o)).known = m.known from rfl, h.known]
    funext l
    exact (putBook_known l).symm

/-- The result code of a removal. -/
theorem Shows.retires (h : e.Shows caps m arrival held freeOrders freeLevels rungs)
    {e' : MatchingEngine} {arrival' held' freeOrders' : List Ptr} {d : OrderData} {rc : Int}
    (h' : e'.Shows caps (m.remove d) arrival' held' freeOrders' freeLevels'
      (Function.update rungs d.locate rungs'))
    (hrc : BookState.Retires rc (rungs d.locate) rungs') : rc = removalCode m.live d := by
  have hbefore := h.levelTotal d.locate
  have hafter := h'.levelTotal d.locate
  rw [Function.update_self] at hafter
  have hafter' : ItchParser.levelTotal rungs' = levelsAt (without m.live d.orderId) d.locate :=
    hafter
  unfold removalCode
  rcases hrc with ⟨rfl, htotal⟩ | ⟨rfl, htotal⟩
  · rw [if_neg (by omega)]
  · rw [if_pos (by omega)]

/-- Without a level for the order `placeOrder` gives its slot back. -/
theorem Shows.place_full (h : e.Shows caps m arrival [o] freeOrders freeLevels rungs)
    (hfit : m.Fits) {d : OrderData} (hd : orderData e.orders o = d)
    (hbook : e.instruments.book d.locate = some b) (hfull : LevelsFull caps m.live d)
    (rollback accept : EngineStats → EngineStats) :
    e.placeOrder d.locate d.orderId o b rollback accept =
      (e.count EngineStats.countLevelPoolExhausted).releaseOrder o := by
  subst hd
  obtain ⟨hopens, hfull⟩ := hfull
  change e.instruments.book (e.orders o).locate = some b at hbook
  obtain ⟨hlevels, -⟩ := h.fits hfit (e.orders o).locate
  obtain rfl := h.levels_full.mpr hfull
  have hadd := BookState.addOrder_full (h.book hbook) h.holds.levelPool hlevels
    (by rw [← hopens]; exact h.opens o)
  show e.placeOrder (e.orders o).locate (e.orders o).orderId o b rollback accept = _
  unfold placeOrder
  simp only [hadd, if_true, putBook_self hbook]

/-- An order that is in its book with the code `rc` goes to the index. -/
theorem Shows.placed (h : e.Shows caps m arrival [o] freeOrders freeLevels rungs)
    (hbook : e.instruments.book (e.orders o).locate = some b)
    (hfresh : m.find (orderData e.orders o).orderId = none) {freeLevels' : List Ptr}
    {rungs' : Side → List Rung} {rc : Int} (hrc : rc ≠ 0)
    (hcode : ((e.bookState b).addOrder o).1 = rc)
    (hupdate : (e.bookState b).Update ((e.bookState b).addOrder o).2
      (fun q => ∃ l, OnRung (rungs l) q) freeLevels freeLevels'
      (atLocate (orderData e.orders) (e.orders o).locate arrival)
      (atLocate (orderData e.orders) (e.orders o).locate arrival ++ [o])
      (rungs (e.orders o).locate) rungs' (orderData e.orders))
    (rollback accept : EngineStats → EngineStats) :
    (e.placeOrder (e.orders o).locate (e.orders o).orderId o b rollback accept).Refines caps
      ((m.append (orderData e.orders o) hfresh).count fun s =>
        accept (s.raiseLevels rc).raiseOrders) := by
  have hfresh' : ∀ p ∈ arrival, (e.orders p).orderId ≠ (e.orders o).orderId := by
    intro p hp
    refine find_eq_none.mp hfresh (orderData e.orders p) ?_
    rw [h.live]
    exact List.mem_map_of_mem hp
  obtain ⟨st, hadd⟩ : ∃ st, (e.bookState b).addOrder o = (rc, st) := ⟨_, Prod.ext hcode rfl⟩
  rw [hadd] at hupdate
  obtain ⟨index, hinsert, hlayout⟩ := h.toLayout.putOn hbook hfresh' hupdate
  have hengine : e.placeOrder (e.orders o).locate (e.orders o).orderId o b rollback accept =
      ({ e.putBook (e.orders o).locate st with orderIndex := index }.count fun s =>
        accept (s.raiseLevels rc).raiseOrders) := by
    unfold placeOrder
    simp only [hadd, if_neg hrc]
    unfold indexAdded
    have hinsert' : ((e.putBook (e.orders o).locate st).count fun s =>
        s.raiseLevels rc).orderIndex.insert ((e.putBook (e.orders o).locate st).count fun s =>
        s.raiseLevels rc).orders (e.orders o).orderId o = (index, true) := hinsert
    rw [hinsert']
    rfl
  rw [hengine]
  refine ⟨_, _, _, _, hlayout.count _, ?_, ?_, ?_, ?_⟩
  · rw [← h.capacities]
    show Capacities.mk _ st.levelPool.capacity.toNat = _
    rw [hupdate.capacity]
    rfl
  · show m.live ++ [orderData e.orders o] = (arrival ++ [o]).map (orderData st.orders)
    rw [hupdate.data_eq, List.map_append, List.map_singleton, h.live]
  · rw [show ((m.append (orderData e.orders o) hfresh).count _).known = m.known from rfl, h.known]
    funext l
    exact (putBook_known l).symm
  · show accept ((m.stats.raiseLevels _).raiseOrders) = _
    rw [h.stats]
    rfl

/-- `placeOrder` puts a constructed order on its book, if there is a level for it. -/
theorem Shows.place (h : e.Shows caps m arrival [o] freeOrders freeLevels rungs) (hfit : m.Fits)
    {d : OrderData} (hd : orderData e.orders o = d)
    (hbook : e.instruments.book d.locate = some b) (hfresh : m.find d.orderId = none)
    (rollback accept : EngineStats → EngineStats) :
    (e.placeOrder d.locate d.orderId o b rollback accept).Refines caps (m.place caps d accept) := by
  subst hd
  change e.instruments.book (e.orders o).locate = some b at hbook
  change (e.placeOrder (e.orders o).locate (e.orders o).orderId o b rollback accept).Refines _ _
  have hrepresents := h.book hbook
  obtain ⟨hlevels, -⟩ := h.fits hfit (e.orders o).locate
  have hnew : o ∉ atLocate (orderData e.orders) (e.orders o).locate arrival := fun hmem =>
    h.apart o (by simp) (List.mem_filter.mp hmem).1
  have hused : ∀ q, OnRung (rungs (e.orders o).locate) q → ∃ l, OnRung (rungs l) q :=
    fun q hq => ⟨_, hq⟩
  rw [Market.place, dif_pos hfresh]
  cases hopens : opensFor m.live (orderData e.orders o) with
  | false =>
      rw [if_neg (by simp)]
      obtain ⟨hrc, rungs', -, hupdate⟩ := BookState.addOrder_joins hrepresents h.holds.levelPool
        hused hlevels hnew (by rw [← hopens]; exact h.opens o)
      exact h.placed hbook hfresh (by decide) hrc hupdate rollback accept
  | true =>
      by_cases hfull : caps.levels ≤ levelCount m.live
      · rw [if_pos ⟨rfl, hfull⟩]
        have hengine := h.place_full hfit rfl hbook ⟨hopens, hfull⟩ rollback accept
        exact hengine.symm ▸ ((h.count _).releaseHeld).refines
      · rw [if_neg fun hc => hfull hc.2]
        obtain ⟨lvl, free', rfl⟩ := List.exists_cons_of_ne_nil fun he =>
          hfull (h.levels_full.mp he)
        obtain ⟨hrc, rungs', -, hupdate⟩ := BookState.addOrder_opens hrepresents h.holds.levelPool
          hused hlevels hnew (by rw [← hopens]; exact h.opens o)
        exact h.placed hbook hfresh (by decide) hrc hupdate rollback accept

end MatchingEngine
end ItchParser
