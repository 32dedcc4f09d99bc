import Mathlib.Algebra.BigOperators.Group.Finset.Basic
import Mathlib.Data.FinEnum
import ItchParser.MatchingEngine
import ItchParser.OrderBook.Represents

/-!
# Market: the engine without its memory

The abstract state is the sequence of live orders in order of arrival. Every book, the index and the
number of levels are functions of that sequence: a side of a book is the ladder of its orders. The
two pools only appear through their capacities. `Market.step` says what each call does, rejections
included.
-/

namespace ItchParser

open Ladder OrderBook

/-- The capacities of the order pool and the level pool. -/
structure Capacities where
  orders : Nat
  levels : Nat

/-- The live orders in order of arrival, the locates with an instrument, and the statistics. -/
@[ext] structure Market where
  live : List OrderData
  known : StockLocate → Bool
  stats : EngineStats
  distinct : (live.map OrderData.orderId).Nodup

/-- The orders of one side of one book. -/
def restingOn (live : List OrderData) (locate : StockLocate) (s : Side) : List OrderData :=
  live.filter fun d => d.locate = locate ∧ d.side = s

/-- One side of one book: its prices, best first, with the orders at each price. -/
def bookOf (live : List OrderData) (locate : StockLocate) (s : Side) :
    List (Price × List OrderData) :=
  ladder (pricePolicy s) OrderData.priceCents (restingOn live locate s)

/-- The number of levels of one book. -/
def levelsAt (live : List OrderData) (locate : StockLocate) : Nat :=
  (bookOf live locate .buy).length + (bookOf live locate .sell).length

/-- The number of levels of all books. -/
def levelCount (live : List OrderData) : Nat :=
  ∑ locate, levelsAt live locate

/-- A sum over all locates after a change at one of them. -/
theorem sum_update_add (f : StockLocate → Nat) (locate : StockLocate) (n : Nat) :
    (∑ l, Function.update f locate n l) + f locate = (∑ l, f l) + n := by
  have hrest : ∑ l ∈ Finset.univ.erase locate, Function.update f locate n l =
      ∑ l ∈ Finset.univ.erase locate, f l :=
    Finset.sum_congr rfl fun l hl => Function.update_of_ne (Finset.ne_of_mem_erase hl) n f
  have hnew := Finset.add_sum_erase Finset.univ (Function.update f locate n)
    (Finset.mem_univ locate)
  have hold := Finset.add_sum_erase Finset.univ f (Finset.mem_univ locate)
  rw [Function.update_self] at hnew
  omega

/-- Whether the order `d` would open a level. -/
def opensFor (live : List OrderData) (d : OrderData) : Bool :=
  opens (pricePolicy d.side) OrderData.priceCents d (bookOf live d.locate d.side)

/-- The live orders without the one with id `id`. -/
def without (live : List OrderData) (id : OrderReferenceNumber) : List OrderData :=
  live.filter fun d => d.orderId ≠ id

/-- The live orders after `qty` shares of the order `id` are gone. -/
def reducedBy (live : List OrderData) (id : OrderReferenceNumber) (qty : Shares) :
    List OrderData :=
  live.map fun d =>
    if d.orderId = id then { d with sharesRemaining := d.sharesRemaining - qty } else d

/-- The result code of taking an order off its book: 2 when the last level of its price goes. -/
def removalCode (live : List OrderData) (d : OrderData) : Int :=
  if levelsAt (without live d.orderId) d.locate < levelsAt live d.locate then 2 else 1

namespace Market

/-- No orders, no instruments, all counters zero. -/
def empty : Market :=
  ⟨[], fun _ => false, {}, List.nodup_nil⟩

variable (caps : Capacities)

/-- One side of one book. -/
def book (m : Market) (locate : StockLocate) (s : Side) : List (Price × List OrderData) :=
  bookOf m.live locate s

/-- The live order with an id. -/
def find (m : Market) (id : OrderReferenceNumber) : Option OrderData :=
  m.live.find? fun d => d.orderId = id

/-- An update of the statistics. -/
def count (m : Market) (f : EngineStats → EngineStats) : Market :=
  { m with stats := f m.stats }

@[simp] theorem count_find (m : Market) (f : EngineStats → EngineStats)
    (id : OrderReferenceNumber) : (m.count f).find id = m.find id := rfl

@[simp] theorem count_live (m : Market) (f : EngineStats → EngineStats) :
    (m.count f).live = m.live := rfl

/-- The instrument of a locate exists from now on. -/
def know (m : Market) (locate : StockLocate) : Market :=
  { m with known := Function.update m.known locate true }

/-- Takes the order `d` off its book. -/
def remove (m : Market) (d : OrderData) : Market :=
  { m with
    live := without m.live d.orderId
    distinct := m.distinct.sublist (List.filter_sublist.map _) }

/-- An id is unknown when no live order has it. -/
theorem find_eq_none {m : Market} {id : OrderReferenceNumber} :
    m.find id = none ↔ ∀ d ∈ m.live, d.orderId ≠ id := by
  simp [find, List.find?_eq_none]

/-- The order that is found is live and has the id. -/
theorem find_eq_some {m : Market} {id : OrderReferenceNumber} {d : OrderData} :
    m.find id = some d ↔ d ∈ m.live ∧ d.orderId = id := by
  constructor
  · intro h
    exact ⟨List.mem_of_find?_eq_some h, by simpa using List.find?_some h⟩
  · rintro ⟨hd, hid⟩
    cases hf : m.find id with
    | none => exact absurd hid (find_eq_none.mp hf d hd)
    | some d' =>
        have hd' := List.mem_of_find?_eq_some hf
        have hid' : d'.orderId = id := by simpa using List.find?_some hf
        rw [List.inj_on_of_nodup_map m.distinct hd' hd (hid'.trans hid.symm)]

/-- Adds the order `d` to its book. -/
def append (m : Market) (d : OrderData) (hfresh : m.find d.orderId = none) : Market :=
  { m with
    live := m.live ++ [d]
    distinct := by
      rw [List.map_append, List.map_singleton, List.nodup_append]
      refine ⟨m.distinct, List.nodup_singleton _, fun a ha b hb => ?_⟩
      obtain ⟨x, hx, rfl⟩ := List.mem_map.mp ha
      rw [List.mem_singleton.mp hb]
      exact find_eq_none.mp hfresh x hx }

/-- A reduction changes no id. -/
theorem map_orderId_reducedBy (live : List OrderData) (id : OrderReferenceNumber) (qty : Shares) :
    (reducedBy live id qty).map OrderData.orderId = live.map OrderData.orderId := by
  rw [reducedBy, List.map_map]
  refine List.map_congr_left fun d _ => ?_
  simp only [Function.comp_apply]
  split <;> rfl

/-- Takes `qty` shares off the order `id`. -/
def reduce (m : Market) (id : OrderReferenceNumber) (qty : Shares) : Market :=
  { m with
    live := reducedBy m.live id qty
    distinct := by rw [map_orderId_reducedBy]; exact m.distinct }

/-- Puts a new order on its book, unless that needs a level and there is none left. -/
def place (m : Market) (d : OrderData) (accept : EngineStats → EngineStats) : Market :=
  if hfresh : m.find d.orderId = none then
    if opensFor m.live d = true ∧ caps.levels ≤ levelCount m.live then
      m.count EngineStats.countLevelPoolExhausted
    else
      (m.append d hfresh).count fun s =>
        accept (s.raiseLevels (if opensFor m.live d then 2 else 1)).raiseOrders
  else m

/-- A and F. -/
def addOrder (m : Market) (d : OrderData) (attributed : Bool) : Market :=
  if (m.find d.orderId).isSome then m.count EngineStats.countDuplicate
  else
    let m := m.know d.locate
    if caps.orders ≤ m.live.length then
      m.count fun s => { s with
        addRejectedPoolExhausted := s.addRejectedPoolExhausted + 1
        poolExhausted := s.poolExhausted + 1 }
    else
      m.place caps d fun s =>
        if attributed then { s with addOrdersWithMpid := s.addOrdersWithMpid + 1 }
        else { s with addOrders := s.addOrders + 1 }

/-- E, C and X. An order at the reserved price is never found on its book. -/
def reduceOrder (m : Market) (locate : StockLocate) (id : OrderReferenceNumber) (qty : Shares)
    (accept : EngineStats → EngineStats) : Market :=
  match m.find id with
  | none => m.count EngineStats.countUnknown
  | some d =>
      let m := m.count fun s => s.countMismatch d.locate locate
      if d.priceCents = kEmptyPrice then m.count EngineStats.countLevelMissing
      else if qty ≥ d.sharesRemaining then
        (m.remove d).count fun s => (accept s).dropOrder.dropLevel (removalCode m.live d)
      else (m.reduce id qty).count accept

/-- D. An order at the reserved price is not found on its book here either. -/
def orderDelete (m : Market) (locate : StockLocate) (id : OrderReferenceNumber) : Market :=
  match m.find id with
  | none => m.count EngineStats.countUnknown
  | some d =>
      let m := m.count fun s => s.countMismatch d.locate locate
      if d.priceCents = kEmptyPrice then m.count EngineStats.countLevelMissing
      else
        (m.remove d).count fun s =>
          let s := s.dropOrder.dropLevel (removalCode m.live d)
          { s with orderDelete := s.orderDelete + 1 }

/-- The order that replaces `d`. -/
def replacement (d : OrderData) (newId : OrderReferenceNumber) (newQty : Shares) (newPx : Price)
    (ts : Timestamp) : OrderData :=
  { d with orderId := newId, sharesRemaining := newQty, priceCents := newPx, addedAtNs := ts }

/-- The old order is gone also when the new one then finds no level slot. -/
def orderReplace (m : Market) (locate : StockLocate) (oldId newId : OrderReferenceNumber)
    (newQty : Shares) (newPx : Price) (ts : Timestamp) : Market :=
  match m.find oldId with
  | none => m.count EngineStats.countUnknown
  | some d =>
      let m := m.count fun s => s.countMismatch d.locate locate
      if (m.find newId).isSome then m.count EngineStats.countDuplicate
      else if caps.orders ≤ m.live.length then
        m.count fun s => { s with
          replaceRejectedPoolExhausted := s.replaceRejectedPoolExhausted + 1
          poolExhausted := s.poolExhausted + 1 }
      else if d.priceCents = kEmptyPrice then m.count EngineStats.countLevelMissing
      else
        ((m.remove d).count fun s => s.dropOrder.dropLevel (removalCode m.live d)).place caps
          (replacement d newId newQty newPx ts) fun s =>
            { s with orderReplace := s.orderReplace + 1 }

/-- The market without the orders of one locate. -/
def clear (m : Market) (locate : StockLocate) : Market :=
  { m with
    live := m.live.filter fun d => d.locate ≠ locate
    distinct := m.distinct.sublist (List.filter_sublist.map _) }

/-- Q. Only the closing cross clears the book of its locate. -/
def crossTrade (m : Market) (locate : StockLocate) (xtype : CrossType) : Market :=
  let m := m.count fun s => { s with crossTrades := s.crossTrades + 1 }
  if xtype ≠ CrossType.Closing then m
  else
    (m.clear locate).count fun s =>
      s.dropBook (m.live.filter fun d => d.locate = locate).length (levelsAt m.live locate)

/-- What one call does. -/
def step (m : Market) : Call → Market
  | .stockDirectory locate _ _ _ _ _ _ _ _ _ _ _ _ =>
      let isNew := !m.known locate
      let m := m.know locate
      if isNew then
        m.count fun s => { s with instrumentsRegistered := s.instrumentsRegistered + 1 }
      else m
  | .tradingAction _ _ _ _ => m
  | .regSho _ _ => m
  | .addOrder locate id bsi qty px ts mpid attributed =>
      m.addOrder caps
        ⟨id, locate, px, qty, toSide bsi, ts, if attributed then mpid else MPID.blank⟩ attributed
  | .orderExecuted locate id execQty _ =>
      m.reduceOrder locate id execQty fun s => { s with orderExecuted := s.orderExecuted + 1 }
  | .orderExecutedWithPrice locate id execQty _ _ _ =>
      m.reduceOrder locate id execQty fun s =>
        { s with orderExecutedWithPrice := s.orderExecutedWithPrice + 1 }
  | .orderCancel locate id cancelledQty =>
      m.reduceOrder locate id cancelledQty fun s => { s with orderCancel := s.orderCancel + 1 }
  | .orderDelete locate id => m.orderDelete locate id
  | .orderReplace locate oldId newId newQty newPx ts =>
      m.orderReplace caps locate oldId newId newQty newPx ts
  | .nonCrossTrade _ _ _ _ => m.count fun s => { s with nonCrossTrades := s.nonCrossTrades + 1 }
  | .crossTrade locate xtype => m.crossTrade locate xtype
  | .brokenTrade _ _ => m.count fun s => { s with brokenTrades := s.brokenTrades + 1 }

/-- Every side fits its level map, and no level's order count wraps around. -/
structure Fits (m : Market) : Prop where
  levels : ∀ locate s, (m.book locate s).length ≤ kPriceLevelMapCapacity
  orders : ∀ locate s, ∀ g ∈ m.book locate s, g.2.length ≤ 4294967296

/-- Whether the books fit depends on the live orders only. -/
theorem Fits.of_live {m m' : Market} (h : m.Fits) (hlive : m.live = m'.live) : m'.Fits := by
  refine ⟨fun locate s => ?_, fun locate s g hg => ?_⟩
  · have hlevels := h.levels locate s
    unfold Market.book at hlevels ⊢
    rwa [← hlive]
  · unfold Market.book at hg
    rw [← hlive] at hg
    exact h.orders locate s g hg

end Market
end ItchParser
