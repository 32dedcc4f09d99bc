import ItchParser.FlatHashMap.Update
import ItchParser.PriceLevel

/-!
# OrderBook: the resting orders of one instrument

The model of `OrderBook.hpp`. The fields of the source come in a `bid` and an `ask` version with the
same code for both, so a book has one `BookSide` record for each side. A book does not own its
orders and levels; `BookState` puts it next to the memory that its methods change.
-/

namespace ItchParser

open Intrusive

namespace OrderBook

/-- The number of price levels that one side's map can hold. -/
def kPriceLevelMapCapacity : Nat := 8192

/-- The price that marks an empty slot of the level map. -/
def kEmptyPrice : Price := 0xFFFFFFFF

/-- The 64-bit finalizer that spreads the prices over the slots. -/
def hash (k : Price) : UInt64 :=
  let x := k.toUInt64
  let x := x ^^^ (x >>> 33)
  let x := x * 0xff51afd7ed558ccd
  let x := x ^^^ (x >>> 33)
  let x := x * 0xc4ceb9fe1a85ec53
  x ^^^ (x >>> 33)

/-- The level map: 8192 slots, hashed by price. -/
def levelLayout : MapLayout Price where
  kCapacity := kPriceLevelMapCapacity
  kEmpty := kEmptyPrice
  hash := hash
  bits := 13
  capacity_eq := rfl

end OrderBook

open OrderBook

/-- The levels of one side by price. -/
abbrev LevelMap := FlatHashMap Price Ptr

/-- One side of a book: `bid_map_`, `best_bid_` and `bid_level_count_`, or the `ask` fields. -/
structure BookSide where
  map : LevelMap
  best : Option Ptr
  levelCount : UInt64

/-- A book: its two sides, and how many orders it has. -/
structure OrderBook where
  side : Side → BookSide
  liveOrderCount : UInt64

namespace OrderBook

/-- A new book has no levels. -/
def create : OrderBook :=
  ⟨fun _ => ⟨FlatHashMap.empty levelLayout, none, 0⟩, 0⟩

/-- Writes one side. -/
def setSide (b : OrderBook) (s : Side) (x : BookSide) : OrderBook :=
  { b with side := Function.update b.side s x }

/-- The level of a price. -/
def findLevel (b : OrderBook) (s : Side) (px : Price) : Option Ptr :=
  (b.side s).map.find levelLayout px

/-- The levels of both sides. -/
def liveLevels (b : OrderBook) : UInt64 :=
  (b.side .buy).levelCount + (b.side .sell).levelCount

end OrderBook

/-- A book together with the order memory and the level pool. -/
structure BookState where
  book : OrderBook
  orders : Ptr → Order
  levelPool : MemoryPool PriceLevel

namespace BookState

/-- The memory of the levels. -/
abbrev levels (st : BookState) : Ptr → PriceLevel :=
  st.levelPool.storage

/-- Replaces the memory of the levels. -/
def setLevels (st : BookState) (levels : Ptr → PriceLevel) : BookState :=
  { st with levelPool := { st.levelPool with storage := levels } }

/-- A level at price `px` stays ahead of a level at `newPx`: higher bids and lower asks first. -/
def ahead (s : Side) (px newPx : Price) : Bool :=
  match s with
  | .buy => px > newPx
  | .sell => px < newPx

/-- The loop of `insert_level_sorted`: the last level that stays ahead and the one behind it. -/
def scanLevels (levels : Ptr → PriceLevel) (s : Side) (px : Price) :
    Nat → Option Ptr → Option Ptr → Option Ptr × Option Ptr
  | 0, prev, cur => (prev, cur)
  | _ + 1, prev, none => (prev, none)
  | fuel + 1, prev, some c =>
      if ahead s (levels c).priceCents px then
        scanLevels levels s px fuel (some c) (levels c).nextLevel
      else (prev, some c)

/-- Inserts a level in price order. -/
def insertLevelSorted (st : BookState) (s : Side) (lvl : Ptr) : BookState :=
  let side := st.book.side s
  let (prev, cur) :=
    scanLevels st.levels s (st.levels lvl).priceCents maxNodes none side.best
  let levels := modify st.levels lvl fun x => { x with prevLevel := prev, nextLevel := cur }
  let (side, levels) :=
    match prev with
    | some p => (side, modify levels p fun x => { x with nextLevel := some lvl })
    | none => ({ side with best := some lvl }, levels)
  let levels :=
    match cur with
    | some c => modify levels c fun x => { x with prevLevel := some lvl }
    | none => levels
  { st with book := st.book.setSide s side }.setLevels levels

/-- Unlinks a level; the best one is replaced by the next. -/
def removeLevelFromList (st : BookState) (s : Side) (lvl : Ptr) : BookState :=
  let side := st.book.side s
  let old := st.levels lvl
  let (side, levels) :=
    match old.prevLevel with
    | some p => (side, modify st.levels p fun x => { x with nextLevel := old.nextLevel })
    | none => ({ side with best := old.nextLevel }, st.levels)
  let levels :=
    match old.nextLevel with
    | some n => modify levels n fun x => { x with prevLevel := old.prevLevel }
    | none => levels
  let levels := modify levels lvl fun x => { x with prevLevel := none, nextLevel := none }
  { st with book := st.book.setSide s side }.setLevels levels

/-- The result of the insert is not looked at, and the level is counted in any case. -/
def insertLevelIntoMap (st : BookState) (s : Side) (lvl : Ptr) : BookState :=
  let side := st.book.side s
  { st with
    book := st.book.setSide s
      { side with
        map := (side.map.insert levelLayout (st.levels lvl).priceCents (some lvl)).1
        levelCount := side.levelCount + 1 } }

/-- Takes a level out of the map and the count. -/
def eraseLevelFromMap (st : BookState) (s : Side) (lvl : Ptr) : BookState :=
  let side := st.book.side s
  { st with
    book := st.book.setSide s
      { side with
        map := side.map.erase levelLayout (st.levels lvl).priceCents
        levelCount := side.levelCount - 1 } }

/-- `lvl->push_back(o)` and the live-order count. -/
def pushOrder (st : BookState) (lvl o : Ptr) : BookState :=
  let (level, orders) := (st.levels lvl).pushBack st.orders o
  { st with
    orders := orders
    book := { st.book with liveOrderCount := st.book.liveOrderCount + 1 } }.setLevels
      (Function.update st.levels lvl level)

/-- Adds a resting order. Returns 0 when the level pool is exhausted, 1 when the order joined a
level and 2 when it opened one. -/
def addOrder (st : BookState) (o : Ptr) : Int × BookState :=
  let s := (st.orders o).side
  let px := (st.orders o).priceCents
  match st.book.findLevel s px with
  | some lvl => (1, st.pushOrder lvl o)
  | none =>
      match st.levelPool.acquire with
      | none => (0, st)
      | some (lvl, pool) =>
          let st := { st with levelPool := pool }
          let st := st.setLevels (modify st.levels lvl fun mem => mem.construct.reset px s)
          let st := st.insertLevelSorted s lvl
          let st := st.insertLevelIntoMap s lvl
          (2, st.pushOrder lvl o)

/-- The end of `execute_order` and `remove_order`, once the order is unlinked from its level: a
level that became empty is removed and released. -/
def retireLevel (st : BookState) (s : Side) (lvl : Ptr) : Int × BookState :=
  if (st.levels lvl).empty then
    let st := st.removeLevelFromList s lvl
    let st := st.eraseLevelFromMap s lvl
    (2, { st with levelPool := st.levelPool.release (some lvl) })
  else (1, st)

/-- Writes back what `unlink` made of the level and the orders, and counts the order off. -/
def putUnlinked (st : BookState) (lvl : Ptr) (result : PriceLevel × (Ptr → Order)) : BookState :=
  { st with
    orders := result.2
    book := { st.book with liveOrderCount := st.book.liveOrderCount - 1 } }.setLevels
      (Function.update st.levels lvl result.1)

/-- Applies a fill. Returns -1 when the level is missing, 0 when the order stays, 1 when it is
filled and its level stays, and 2 when the level went with it. -/
def executeOrder (st : BookState) (o : Ptr) (qty : Shares) : Int × BookState :=
  let order := st.orders o
  match st.book.findLevel order.side order.priceCents with
  | none => (-1, st)
  | some lvl =>
      let filled := if qty ≥ order.sharesRemaining then order.sharesRemaining else qty
      let st := st.setLevels
        (modify st.levels lvl fun x => { x with totalShares := x.totalShares - filled.toUInt64 })
      let (order, nowDead) := order.reduce qty
      let st := { st with orders := Function.update st.orders o order }
      if nowDead then
        (st.putUnlinked lvl ((st.levels lvl).unlink st.orders o)).retireLevel order.side lvl
      else (0, st)

/-- Cancel uses the same logic as execute. -/
def cancelOrder (st : BookState) (o : Ptr) (qty : Shares) : Int × BookState :=
  st.executeOrder o qty

/-- Removes an order completely. Returns 0 when the level is missing, 1 when the level stays and 2
when it went with the order. -/
def removeOrder (st : BookState) (o : Ptr) : Int × BookState :=
  let order := st.orders o
  match st.book.findLevel order.side order.priceCents with
  | none => (0, st)
  | some lvl =>
      (st.putUnlinked lvl ((st.levels lvl).unlinkAndDeduct st.orders o)).retireLevel order.side lvl

/-- The levels of one side in list order. -/
def levelList (st : BookState) (s : Side) : List Ptr :=
  walk (fun p => (st.levels p).nextLevel) maxNodes (st.book.side s).best

/-- The orders of one level in queue order. -/
def orderList (st : BookState) (lvl : Ptr) : List Ptr :=
  walk (fun p => (st.orders p).next) maxNodes (st.levels lvl).headOrder

/-- The orders that `for_each_order` visits: the bids, then the asks. -/
def forEachOrder (st : BookState) : List Ptr :=
  (st.levelList .buy).flatMap st.orderList ++ (st.levelList .sell).flatMap st.orderList

/-- The release loop of `clear_levels`. The link to the next level is read before the release. -/
def releaseLevels : Nat → Option Ptr → MemoryPool PriceLevel → MemoryPool PriceLevel
  | 0, _, pool => pool
  | _ + 1, none, pool => pool
  | fuel + 1, some lvl, pool =>
      let next := (pool.storage lvl).nextLevel
      releaseLevels fuel next (pool.release (some lvl))

/-- Releases all price levels. -/
def clearLevels (st : BookState) : BookState :=
  let pool := releaseLevels maxNodes (st.book.side .buy).best st.levelPool
  let pool := releaseLevels maxNodes (st.book.side .sell).best pool
  { st with
    levelPool := pool
    book := ⟨fun s => ⟨(st.book.side s).map.clear levelLayout, none, 0⟩, 0⟩ }

end BookState
end ItchParser
