import ItchParser.Engine.Refines
import ItchParser.Market.Levels

/-!
# The handlers refine the steps of the market

One lemma for each handler. The handlers that look an order up share their first steps: the order
is live, its book exists, and the check of the locate only counts.
-/

namespace ItchParser

open Ladder OrderBook Market

/-- Removing an order cannot make a book too large. -/
theorem Market.Fits.remove {m : Market} (hfit : m.Fits) (d : OrderData) : (m.remove d).Fits := by
  have hbook : ∀ locate s, (m.remove d).book locate s =
      restrict (fun x => x.orderId ≠ d.orderId) (m.book locate s) :=
    bookOf_without m.live d.orderId
  refine ⟨fun locate s => ?_, fun locate s g hg => ?_⟩
  · rw [hbook]
    exact (List.length_filterMap_le _ _).trans (hfit.levels locate s)
  · rw [hbook] at hg
    obtain ⟨g', hg', htrim⟩ := List.mem_filterMap.mp hg
    unfold trim at htrim
    split at htrim
    · cases htrim
    · cases htrim
      exact (List.length_filter_le _ _).trans (hfit.orders locate s g' hg')

/-- Counting changes no book. -/
theorem Market.Fits.count {m : Market} (hfit : m.Fits) (f : EngineStats → EngineStats) :
    (m.count f).Fits :=
  ⟨hfit.levels, hfit.orders⟩

/-- A new instrument has no orders. -/
theorem Market.Fits.know {m : Market} (hfit : m.Fits) (locate : StockLocate) :
    (m.know locate).Fits :=
  ⟨hfit.levels, hfit.orders⟩

namespace MatchingEngine

variable {e e' : MatchingEngine} {caps : Capacities} {m : Market}
  {arrival held freeOrders freeLevels freeLevels' : List Ptr}
  {rungs : StockLocate → Side → List Rung} {rungs' : Side → List Rung} {locate : StockLocate}
  {b : OrderBook} {o p : Ptr} {id : OrderReferenceNumber}

/-! ## Directory messages -/

/-- A change of the instruments that keeps the books. -/
theorem Shows.setInstruments (h : e.Shows caps m arrival held freeOrders freeLevels rungs)
    {instruments : InstrumentMap} {known : StockLocate → Bool}
    (hbooks : ∀ l b, e.instruments.book l = some b → instruments.book l = some b)
    (hnew : ∀ l, e.instruments.book l = none → (instruments.book l).getD OrderBook.create =
      OrderBook.create)
    (hknown : known = fun l => (instruments.slots l).isSome) :
    { e with instruments := instruments }.Shows caps { m with known := known } arrival held
      freeOrders freeLevels rungs := by
  refine ⟨⟨h.holds.congr (fun l => ?_) rfl fun _ _ => rfl, h.orderPool, h.apart, h.orderSlots,
    h.index, fun p hp => ?_⟩, h.capacities, h.live, hknown, h.stats⟩
  · show (instruments.book l).getD OrderBook.create = (e.instruments.book l).getD OrderBook.create
    cases hb : e.instruments.book l with
    | none => exact hnew l hb
    | some b => rw [hbooks l b hb]
  · obtain ⟨b, hb⟩ := Option.isSome_iff_exists.mp (h.homes p hp)
    show (instruments.book (e.orders p).locate).isSome
    rw [hbooks _ b hb]
    rfl

/-- Writing an instrument writes its book. -/
theorem set_book (im : InstrumentMap) (inst : Instrument) :
    (im.set locate inst).book = Function.update im.book locate inst.book := by
  funext l
  unfold InstrumentMap.book InstrumentMap.set
  by_cases hl : l = locate
  · simp [hl]
  · simp [hl]

/-- The instrument that `get_or_create` returns has the book that was there. -/
theorem getOrCreate_book (im : InstrumentMap) (locate : StockLocate) :
    (im.getOrCreate locate).1.book = im.book locate ∧
      (im.getOrCreate locate).2.book = im.book := by
  unfold InstrumentMap.getOrCreate InstrumentMap.book
  cases hs : im.slots locate with
  | some inst => exact ⟨rfl, rfl⟩
  | none =>
      refine ⟨rfl, ?_⟩
      funext l
      by_cases hl : l = locate
      · simp [InstrumentMap.set, hl, hs]
      · simp [InstrumentMap.set, hl]

/-- Writing an instrument makes its locate known. -/
theorem set_known (im : InstrumentMap) (inst : Instrument) :
    (fun l => ((im.set locate inst).slots l).isSome) =
      Function.update (fun l => (im.slots l).isSome) locate true := by
  funext l
  by_cases hl : l = locate
  · simp [InstrumentMap.set, hl]
  · simp [InstrumentMap.set, hl]

/-- After `get_or_create` the locate is known. -/
theorem getOrCreate_known (im : InstrumentMap) (inst : Instrument) :
    (fun l => (((im.getOrCreate locate).2.set locate inst).slots l).isSome) =
      Function.update (fun l => (im.slots l).isSome) locate true := by
  rw [set_known]
  unfold InstrumentMap.getOrCreate
  cases hs : im.slots locate with
  | some inst => rfl
  | none =>
      show Function.update (fun l => ((im.set locate _).slots l).isSome) locate true = _
      rw [set_known, Function.update_idem]

/-- Rewriting an instrument without touching its book. -/
theorem Shows.setInstrument (h : e.Shows caps m arrival held freeOrders freeLevels rungs)
    {inst inst' : Instrument} (hinst : e.instruments.slots locate = some inst)
    (hbook : inst'.book = inst.book) :
    { e with instruments := e.instruments.set locate inst' }.Shows caps m arrival held
      freeOrders freeLevels rungs := by
  have hsame : (e.instruments.set locate inst').book = e.instruments.book := by
    rw [set_book, hbook]
    refine Function.update_eq_self_iff.mpr ?_
    rw [InstrumentMap.book, hinst]
    rfl
  have hknown : m.known = fun l => ((e.instruments.set locate inst').slots l).isSome := by
    rw [set_known, h.known]
    refine (Function.update_eq_self_iff.mpr ?_).symm
    simp [hinst]
  exact h.setInstruments (fun l b hb => by rwa [hsame]) (fun l hl => by rw [hsame, hl]; rfl) hknown

/-- R, in engine and market. -/
theorem Refines.onStockDirectory (h : e.Refines caps m) (locate : StockLocate) (symbol : Stock)
    (mc : MarketCategory) (fsi : FinancialStatusIndicator) (rls : RoundLotSize)
    (rlo : RoundLotsOnly) (auth : Authenticity) (ssti : ShortScaleThresholdIndicator)
    (ipo : IPOFlag) (luld : LULDReferencePriceTier) (etp : ETPFlag) (elf : ETPLeverageFactor)
    (inv : InverseIndicator) :
    (e.step (.stockDirectory locate symbol mc fsi rls rlo auth ssti ipo luld etp elf inv)).Refines
      caps (m.step caps
        (.stockDirectory locate symbol mc fsi rls rlo auth ssti ipo luld etp elf inv)) := by
  obtain ⟨arrival, freeOrders, freeLevels, rungs, h⟩ := h
  obtain ⟨hbook, hbooks⟩ := getOrCreate_book e.instruments locate
  -- the instrument that is written has the book that was there before
  have hset : ∀ inst : Instrument, inst.book = (e.instruments.getOrCreate locate).1.book →
      { e with instruments := (e.instruments.getOrCreate locate).2.set locate inst }.Shows caps
        (m.know locate) arrival [] freeOrders freeLevels rungs := by
    intro inst hinst
    have hsame : ((e.instruments.getOrCreate locate).2.set locate inst).book =
        e.instruments.book := by
      rw [set_book, hbooks, hinst, hbook, Function.update_eq_self]
    refine h.setInstruments (fun l b hb => by rwa [hsame]) (fun l hl => by rw [hsame, hl]; rfl) ?_
    rw [getOrCreate_known, h.known]
  have hknown : (e.instruments.slots locate).isNone = !m.known locate := by
    rw [h.known]
    simp
  simp only [MatchingEngine.step, Market.step, MatchingEngine.onStockDirectory, hknown]
  cases m.known locate with
  | true => exact Shows.refines (hset _ rfl)
  | false =>
      simp only [Bool.not_false, if_true]
      refine Shows.refines (Shows.count (hset _ ?_) _)
      rfl

/-- The market does not see trading actions. -/
theorem Refines.onTradingAction (h : e.Refines caps m) (state : TradingState) (symbol : Stock)
    (reason : Reason) : (e.onTradingAction locate state symbol reason).Refines caps m := by
  obtain ⟨_, _, _, _, h⟩ := h
  unfold MatchingEngine.onTradingAction
  cases hs : e.instruments.slots locate with
  | none => exact h.refines
  | some inst =>
      refine Shows.refines (h.setInstrument hs ?_)
      rfl

/-- The market does not see Reg SHO restrictions. -/
theorem Refines.onRegSho (h : e.Refines caps m) (action : RegSHOAction) :
    (e.onRegSho locate action).Refines caps m := by
  obtain ⟨_, _, _, _, h⟩ := h
  unfold MatchingEngine.onRegSho
  cases hs : e.instruments.slots locate with
  | none => exact h.refines
  | some inst =>
      refine Shows.refines (h.setInstrument hs ?_)
      rfl

/-! ## Order messages -/

/-- Where there is no instrument or no book yet, `ensureBook` creates an empty book. -/
theorem Shows.ensureBook (h : e.Shows caps m arrival held freeOrders freeLevels rungs)
    (locate : StockLocate) :
    { e with
      instruments := (e.instruments.getOrCreate locate).2.set locate
        (e.instruments.getOrCreate locate).1.ensureBook }.Shows caps (m.know locate) arrival held
      freeOrders freeLevels rungs ∧
    ((e.instruments.getOrCreate locate).2.set locate
        (e.instruments.getOrCreate locate).1.ensureBook).book locate =
      some ((e.instruments.getOrCreate locate).1.ensureBook.book.getD OrderBook.create) := by
  obtain ⟨hbook, hbooks⟩ := getOrCreate_book e.instruments locate
  have hensure : (e.instruments.getOrCreate locate).1.ensureBook.book =
      some ((e.instruments.book locate).getD OrderBook.create) := by
    unfold Instrument.ensureBook
    rw [hbook]
    cases hb : e.instruments.book locate with
    | none => rfl
    | some b => rw [hbook, hb]; rfl
  have hset : ((e.instruments.getOrCreate locate).2.set locate
      (e.instruments.getOrCreate locate).1.ensureBook).book =
      Function.update e.instruments.book locate
        (some ((e.instruments.book locate).getD OrderBook.create)) := by
    rw [set_book, hbooks, hensure]
  refine ⟨h.setInstruments (fun l b hb => ?_) (fun l hl => ?_) ?_, ?_⟩
  · rw [hset, Function.update_apply]
    split
    · next hl => rw [← hl, hb]; rfl
    · exact hb
  · rw [hset, Function.update_apply]
    split
    · next hl => rw [← hl, hl]; simp_all
    · rw [hl]; rfl
  · rw [getOrCreate_known, h.known]
  · rw [hset, Function.update_self, hensure]
    rfl

/-- A and F, in engine and market. -/
theorem Refines.onAddOrder (h : e.Refines caps m) (hfit : m.Fits) (locate : StockLocate)
    (id : OrderReferenceNumber) (bsi : BuySellIndicator) (qty : Shares) (px : Price)
    (ts : Timestamp) (mpid : MPID) (attributed : Bool) :
    (e.onAddOrder locate id bsi qty px ts mpid attributed).Refines caps
      (m.addOrder caps
        ⟨id, locate, px, qty, toSide bsi, ts, if attributed then mpid else MPID.blank⟩
        attributed) := by
  obtain ⟨arrival, freeOrders, freeLevels, rungs, h⟩ := h
  unfold MatchingEngine.onAddOrder Market.addOrder
  rw [show (e.findOrder id).isSome = (m.find id).isSome from h.find_isSome]
  split
  · exact (h.count _).refines
  · next hfind =>
      obtain ⟨hensured, hbook⟩ := h.ensureBook locate
      have hfresh : m.find id = none := by simpa using hfind
      by_cases hfull : caps.orders ≤ (m.know locate).live.length
      · obtain rfl := hensured.orders_full.mpr hfull
        simp only [if_pos hfull, h.orderPool.acquire_nil]
        exact (hensured.count _).refines
      · obtain ⟨mem, rest, rfl⟩ := List.exists_cons_of_ne_nil fun he =>
          hfull (hensured.orders_full.mp he)
        simp only [if_neg hfull, h.orderPool.acquire_cons]
        have hconstructed := hensured.hold.construct (Order.create id locate px qty (toSide bsi) ts
          (if attributed then mpid else MPID.blank))
        exact hconstructed.place (hfit.know locate)
          (d := ⟨id, locate, px, qty, toSide bsi, ts, if attributed then mpid else MPID.blank⟩)
          (constructOrder_data _) hbook hfresh _ _

/-! ### Orders that are looked up -/

/-- A live order has a book. -/
theorem Layout.exists_book (h : e.Layout arrival held freeOrders freeLevels rungs)
    (ho : o ∈ arrival) : ∃ b, e.instruments.book (e.orders o).locate = some b :=
  Option.isSome_iff_exists.mp (h.homes o ho)

/-- The orders of a book, by the layout. -/
theorem mem_atLocate (ho : o ∈ arrival) :
    o ∈ atLocate (orderData e.orders) (e.orders o).locate arrival :=
  List.mem_filter.mpr ⟨ho, decide_eq_true rfl⟩

/-- An order that only lost shares. -/
theorem Shows.putReduced (h : e.Shows caps m arrival held freeOrders freeLevels rungs)
    (ho : o ∈ arrival) (hbook : e.instruments.book (e.orders o).locate = some b) {st : BookState}
    {qty : Shares}
    (hupdate : (e.bookState b).Update st (fun q => ∃ l, OnRung (rungs l) q) freeLevels freeLevels
      (atLocate (orderData e.orders) (e.orders o).locate arrival)
      (atLocate (orderData e.orders) (e.orders o).locate arrival) (rungs (e.orders o).locate)
      (rungs (e.orders o).locate)
      (orderData (BookState.reduced e.orders o ((e.orders o).sharesRemaining - qty)))) :
    (e.putBook (e.orders o).locate st).Shows caps (m.reduce (e.orders o).orderId qty) arrival held
      freeOrders freeLevels rungs := by
  have hdata : ∀ p, orderData (BookState.reduced e.orders o
      ((e.orders o).sharesRemaining - qty)) p = if p = o then { orderData e.orders o with
        sharesRemaining := (e.orders o).sharesRemaining - qty } else orderData e.orders p := by
    intro p
    unfold orderData BookState.reduced
    by_cases hp : p = o
    · rw [hp, Function.update_self, if_pos rfl]
    · rw [Function.update_of_ne hp, if_neg hp]
  have hlayout := h.toLayout.putBook_same hbook hupdate
    (fun p => by rw [hdata]; split <;> simp_all [orderData])
    (fun p => by rw [hdata]; split <;> simp_all [orderData])
  rw [Function.update_eq_self] at hlayout
  refine ⟨hlayout, ?_, ?_, ?_, h.stats⟩
  · rw [← h.capacities]
    show Capacities.mk _ st.levelPool.capacity.toNat = _
    rw [hupdate.capacity]
    rfl
  · show reducedBy m.live _ qty = arrival.map (orderData st.orders)
    rw [hupdate.data_eq, reducedBy, h.live, List.map_map]
    refine List.map_congr_left fun p hp => ?_
    rw [hdata]
    have hid := h.id_iff ho hp
    by_cases hpo : p = o
    · subst hpo
      simp [orderData]
    · have hne : (orderData e.orders p).orderId ≠ (e.orders o).orderId := fun he =>
        hpo (hid.mp he)
      simp [hpo, hne]
  · rw [show (m.reduce _ qty).known = m.known from rfl, h.known]
    funext l
    exact (putBook_known l).symm

/-- E, C and X, in engine and market. -/
theorem Refines.reduceOrder (h : e.Refines caps m) (hfit : m.Fits) (locate : StockLocate)
    (id : OrderReferenceNumber) (qty : Shares) (accept : EngineStats → EngineStats) :
    (e.reduceOrder locate id (fun st o => st.executeOrder o qty) accept).Refines caps
      (m.reduceOrder locate id qty accept) := by
  obtain ⟨arrival, freeOrders, freeLevels, rungs, h⟩ := h
  unfold MatchingEngine.reduceOrder Market.reduceOrder
  cases hfind : e.findOrder id with
  | none =>
      rw [h.find_none.mp hfind]
      exact (h.count _).refines
  | some o =>
      obtain ⟨ho, rfl, hm⟩ := h.find_some hfind
      obtain ⟨b, hbook⟩ := h.exists_book ho
      obtain ⟨hlevels, hlen⟩ := h.fits hfit (e.orders o).locate
      have hcounted := h.count fun s => s.countMismatch (e.orders o).locate locate
      have hbook' : (e.count fun s => s.countMismatch (e.orders o).locate locate).instruments.book
          (e.orders o).locate = some b := hbook
      have hrepresents := hcounted.book hbook'
      have hused : ∀ q, OnRung (rungs (e.orders o).locate) q → ∃ l, OnRung (rungs l) q :=
        fun q hq => ⟨_, hq⟩
      simp only [hm, hbook']
      by_cases hpx : (orderData e.orders o).priceCents = kEmptyPrice
      · -- the level at the reserved price is never found
        simp only [BookState.executeOrder_missing hrepresents hlevels hpx, if_pos hpx,
          putBook_self hbook']
        exact (hcounted.count _).refines
      rw [if_neg hpx]
      by_cases hqty : qty ≥ (orderData e.orders o).sharesRemaining
      · rw [if_pos hqty]
        obtain ⟨free', rungs', hrc, hupdate⟩ := BookState.executeOrder_filled hrepresents
          hcounted.holds.levelPool hused hlevels hlen (mem_atLocate ho) hpx hqty
        have htaken := hcounted.takeOff ho hbook' hupdate
          (by simp [orderData, BookState.reduced, Function.update_self, bookState])
          (by simp [orderData, BookState.reduced, Function.update_self, bookState])
          (fun p hp => by simp [orderData, BookState.reduced, Function.update_of_ne hp, bookState])
        -- the code says whether the level went, as the market can tell from its live orders
        have hcode := hcounted.retires htaken hrc
        obtain ⟨rc, st, hexecute⟩ : ∃ rc st, ((e.count fun s => s.countMismatch (e.orders o).locate
          locate).bookState b).executeOrder o qty = (rc, st) := ⟨_, _, rfl⟩
        rw [hexecute] at hrc hcode htaken
        have hpos : ¬ rc < 0 ∧ rc > 0 := by
          rcases hrc with ⟨rfl, -⟩ | ⟨rfl, -⟩ <;> decide
        simp only [hexecute, if_neg hpos.1, if_pos hpos.2]
        have hdone := (htaken.count accept).count fun s => s.dropOrder.dropLevel rc
        rw [show rc = _ from hcode] at hdone ⊢
        exact hdone.refines
      · rw [if_neg hqty]
        obtain ⟨hrc, hupdate⟩ := BookState.executeOrder_partial hrepresents
          hcounted.holds.levelPool hused hlevels (mem_atLocate ho) hpx hqty
        have hput := hcounted.putReduced ho hbook' hupdate
        obtain ⟨rc, st, hexecute⟩ : ∃ rc st, ((e.count fun s => s.countMismatch (e.orders o).locate
          locate).bookState b).executeOrder o qty = (rc, st) := ⟨_, _, rfl⟩
        rw [hexecute] at hrc hput
        obtain rfl : rc = 0 := hrc
        simp only [hexecute, Int.lt_irrefl, gt_iff_lt, if_false]
        exact (hput.count accept).refines

/-- D, in engine and market. -/
theorem Refines.onOrderDelete (h : e.Refines caps m) (hfit : m.Fits) (locate : StockLocate)
    (id : OrderReferenceNumber) :
    (e.onOrderDelete locate id).Refines caps (m.orderDelete locate id) := by
  obtain ⟨arrival, freeOrders, freeLevels, rungs, h⟩ := h
  unfold MatchingEngine.onOrderDelete Market.orderDelete
  cases hfind : e.findOrder id with
  | none =>
      rw [h.find_none.mp hfind]
      exact (h.count _).refines
  | some o =>
      obtain ⟨ho, rfl, hm⟩ := h.find_some hfind
      obtain ⟨b, hbook⟩ := h.exists_book ho
      obtain ⟨hlevels, hlen⟩ := h.fits hfit (e.orders o).locate
      have hcounted := h.count fun s => s.countMismatch (e.orders o).locate locate
      have hbook' : (e.count fun s => s.countMismatch (e.orders o).locate locate).instruments.book
          (e.orders o).locate = some b := hbook
      have hrepresents := hcounted.book hbook'
      simp only [hm, hbook']
      by_cases hpx : (orderData e.orders o).priceCents = kEmptyPrice
      · simp only [BookState.removeOrder_missing hrepresents hlevels hpx, if_pos hpx,
          putBook_self hbook', if_true]
        exact (hcounted.count _).refines
      rw [if_neg hpx]
      obtain ⟨free', rungs', hrc, hupdate⟩ := BookState.removeOrder_update hrepresents
        hcounted.holds.levelPool (fun q hq => ⟨_, hq⟩) hlevels hlen (mem_atLocate ho) hpx
      have htaken := hcounted.takeOff ho hbook' hupdate rfl rfl fun _ _ => rfl
      have hcode := hcounted.retires htaken hrc
      obtain ⟨rc, st, hremove⟩ : ∃ rc st, ((e.count fun s => s.countMismatch (e.orders o).locate
        locate).bookState b).removeOrder o = (rc, st) := ⟨_, _, rfl⟩
      rw [hremove] at hrc hcode htaken
      have hne : rc ≠ 0 := by
        rcases hrc with ⟨rfl, -⟩ | ⟨rfl, -⟩ <;> decide
      simp only [hremove, if_neg hne]
      rw [show rc = _ from hcode]
      exact (htaken.count _).refines

/-- The order pool of a `Layout` gives a slot as long as it is not full. -/
theorem Shows.acquire (h : e.Shows caps m arrival [] freeOrders freeLevels rungs)
    (hfull : ¬ caps.orders ≤ m.live.length) :
    ∃ mem rest, freeOrders = mem :: rest ∧
      e.orderPool.acquire = some (mem, { e.orderPool with head := rest.head? }) := by
  obtain ⟨mem, rest, rfl⟩ := List.exists_cons_of_ne_nil fun he => hfull (h.orders_full.mp he)
  exact ⟨mem, rest, rfl, h.orderPool.acquire_cons⟩

/-- An order without a level is not replaced, and the slot for the new one goes back. -/
theorem Shows.replaceOrder_missing {mem : Ptr}
    (h : e.Shows caps m arrival [mem] freeOrders freeLevels rungs) (hfit : m.Fits)
    (hbook : e.instruments.book (e.orders o).locate = some b)
    (hpx : (orderData e.orders o).priceCents = kEmptyPrice) (oldId newId : OrderReferenceNumber)
    (newQty : Shares) (newPx : Price) (ts : Timestamp) :
    e.replaceOrder (e.orders o).locate oldId newId newQty newPx ts o mem b =
      (e.count EngineStats.countLevelMissing).releaseOrder mem := by
  obtain ⟨hlevels, -⟩ := h.fits hfit (e.orders o).locate
  unfold MatchingEngine.replaceOrder
  simp only [BookState.removeOrder_missing (h.book hbook) hlevels hpx, putBook_self hbook, if_true]

/-- Replacing an order once there is a slot for the new one. -/
theorem Shows.replaceOrder {mem : Ptr}
    (h : e.Shows caps m arrival [mem] freeOrders freeLevels rungs) (hfit : m.Fits)
    (ho : o ∈ arrival) (hbook : e.instruments.book (e.orders o).locate = some b)
    (newId : OrderReferenceNumber) (hnew : m.find newId = none) (newQty : Shares) (newPx : Price)
    (ts : Timestamp) :
    (e.replaceOrder (e.orders o).locate (e.orders o).orderId newId newQty newPx ts o mem b).Refines
      caps
      (if (orderData e.orders o).priceCents = kEmptyPrice then m.count EngineStats.countLevelMissing
      else
        ((m.remove (orderData e.orders o)).count fun s =>
          s.dropOrder.dropLevel (removalCode m.live (orderData e.orders o))).place caps
          (replacement (orderData e.orders o) newId newQty newPx ts) fun s =>
            { s with orderReplace := s.orderReplace + 1 }) := by
  obtain ⟨hlevels, hlen⟩ := h.fits hfit (e.orders o).locate
  have hrepresents := h.book hbook
  by_cases hpx : (orderData e.orders o).priceCents = kEmptyPrice
  · rw [if_pos hpx, h.replaceOrder_missing hfit hbook hpx]
    exact ((h.count _).releaseHeld).refines
  rw [if_neg hpx]
  unfold MatchingEngine.replaceOrder
  obtain ⟨free', rungs', hrc, hupdate⟩ := BookState.removeOrder_update hrepresents
    h.holds.levelPool (fun q hq => ⟨_, hq⟩) hlevels hlen (mem_atLocate ho) hpx
  have htaken := h.takeOff ho hbook hupdate rfl rfl fun _ _ => rfl
  have hcode := h.retires htaken hrc
  obtain ⟨rc, st, hremove⟩ : ∃ rc st, (e.bookState b).removeOrder o = (rc, st) := ⟨_, _, rfl⟩
  rw [hremove] at hrc hcode htaken
  have hne : rc ≠ 0 := by
    rcases hrc with ⟨rfl, -⟩ | ⟨rfl, -⟩ <;> decide
  simp only [hremove, if_neg hne]
  rw [show rc = _ from hcode]
  have hput : (e.putBook (e.orders o).locate st).instruments.book (e.orders o).locate =
      some st.book := by
    show (e.instruments.setBook _ st.book).book _ = _
    rw [InstrumentMap.setBook_book (InstrumentMap.isSome_of_book hbook), Function.update_self]
  have hcounted := (htaken.count fun s =>
    s.dropOrder.dropLevel (removalCode m.live (orderData e.orders o))).construct
      (Order.create newId (e.orders o).locate newPx newQty (e.orders o).side ts (e.orders o).mpid)
  refine hcounted.place ((hfit.remove _).count _)
    (d := replacement (orderData e.orders o) newId newQty newPx ts) (constructOrder_data _) hput
    ?_ _ _
  refine find_eq_none.mpr fun d hd => find_eq_none.mp hnew d ?_
  exact (List.mem_filter.mp hd).1

/-- U, in engine and market. -/
theorem Refines.onOrderReplace (h : e.Refines caps m) (hfit : m.Fits) (locate : StockLocate)
    (oldId newId : OrderReferenceNumber) (newQty : Shares) (newPx : Price) (ts : Timestamp) :
    (e.onOrderReplace locate oldId newId newQty newPx ts).Refines caps
      (m.orderReplace caps locate oldId newId newQty newPx ts) := by
  obtain ⟨arrival, freeOrders, freeLevels, rungs, h⟩ := h
  unfold MatchingEngine.onOrderReplace Market.orderReplace
  cases hfind : e.findOrder oldId with
  | none =>
      rw [h.find_none.mp hfind]
      exact (h.count _).refines
  | some old =>
      obtain ⟨ho, rfl, hm⟩ := h.find_some hfind
      obtain ⟨b, hbook⟩ := h.exists_book ho
      have hcounted := h.count fun s => s.countMismatch (e.orders old).locate locate
      simp only [hm, count_findOrder, count_instruments, count_orderPool, hbook, Market.count_find,
        Market.count_live]
      by_cases hnew : (m.find newId).isSome
      · simp only [h.find_isSome, hnew, if_true]
        exact (hcounted.count _).refines
      simp only [h.find_isSome, hnew, Bool.false_eq_true, if_false]
      by_cases hfull : caps.orders ≤ m.live.length
      · obtain rfl := h.orders_full.mpr hfull
        simp only [h.orderPool.acquire_nil, hfull, if_true]
        exact (hcounted.count _).refines
      · obtain ⟨mem, rest, rfl, hacquire⟩ := h.acquire hfull
        simp only [hacquire, hfull, if_false]
        exact hcounted.hold.replaceOrder (hfit.count _) ho hbook newId (by simpa using hnew)
          newQty newPx ts

end MatchingEngine
end ItchParser
