import ItchParser.MemoryPool
import ItchParser.Types

/-!
# Orders and price levels

The objects of the two pools (`Order.hpp`, `PriceLevel.hpp`) and the operations that keep a level's
queue of orders. The order memory is a function from slots to orders. Both types say how their
first eight bytes are read as `FreeNode::next`: for an order that is `order_id`, for a level
`price_cents` and the padding behind it.
-/

namespace ItchParser

/-- What an order says, without its place in a queue. -/
structure OrderData where
  orderId : OrderReferenceNumber
  locate : StockLocate
  priceCents : Price
  sharesRemaining : Shares
  side : Side
  addedAtNs : Timestamp
  mpid : MPID
  deriving DecidableEq

/-- An order in its slot of the pool, with its links to the neighbours in a level's queue. -/
structure Order extends OrderData where
  next : Option Ptr
  prev : Option Ptr

namespace Order

/-- `sizeof(Order)`, which is aligned to a cache line. -/
def size : Nat := 64

/-- The constructor; both links start as `nullptr`. -/
def create (id : OrderReferenceNumber) (loc : StockLocate) (px : Price) (qty : Shares) (s : Side)
    (ts : Timestamp) (attribution : MPID) : Order :=
  ⟨⟨id, loc, px, qty, s, ts, attribution⟩, none, none⟩

instance : Inhabited Order := ⟨create 0 0 0 0 .buy 0 MPID.blank⟩

instance : FreeNode Order where
  next o := Ptr.ofWord o.orderId
  setNext o p := { o with orderId := Ptr.toWord p }
  next_setNext _ p := Ptr.ofWord_toWord p

/-- Takes `qty` shares off and reports whether none are left. -/
def reduce (o : Order) (qty : Shares) : Order × Bool :=
  if qty ≥ o.sharesRemaining then ({ o with sharesRemaining := 0 }, true)
  else ({ o with sharesRemaining := o.sharesRemaining - qty }, false)

end Order

/-- A price level. `padding` is the gap between the 4-byte price and the 8-byte `total_shares`. -/
structure PriceLevel where
  priceCents : Price
  padding : UInt32
  totalShares : UInt64
  headOrder : Option Ptr
  tailOrder : Option Ptr
  orderCount : UInt32
  side : Side
  prevLevel : Option Ptr
  nextLevel : Option Ptr

namespace PriceLevel

/-- `sizeof(PriceLevel)`, with the padding behind the price and behind the side. -/
def size : Nat := 56

instance : Inhabited PriceLevel := ⟨⟨0, 0, 0, none, none, 0, .buy, none, none⟩⟩

/-- The first eight bytes as one word. -/
def firstWord (lvl : PriceLevel) : UInt64 :=
  lvl.padding.toUInt64 * 4294967296 + lvl.priceCents.toUInt64

/-- Overwrites the first eight bytes. -/
def setFirstWord (lvl : PriceLevel) (w : UInt64) : PriceLevel :=
  { lvl with priceCents := w.toUInt32, padding := (w / 4294967296).toUInt32 }

/-- Reading back the word that was written. -/
theorem firstWord_setFirstWord (lvl : PriceLevel) (w : UInt64) :
    (lvl.setFirstWord w).firstWord = w := by
  have hlt := w.toNat_lt
  apply UInt64.toNat_inj.mp
  simp only [firstWord, setFirstWord, UInt64.toNat_add, UInt64.toNat_mul, UInt32.toNat_toUInt64,
    UInt64.toNat_toUInt32, UInt64.toNat_div, UInt64.reduceToNat]
  omega

instance : FreeNode PriceLevel where
  next lvl := Ptr.ofWord lvl.firstWord
  setNext lvl p := lvl.setFirstWord (Ptr.toWord p)
  next_setNext lvl p := by rw [firstWord_setFirstWord, Ptr.ofWord_toWord]

/-- `new (lvl) PriceLevel{}`; the padding keeps the bytes that were there. -/
def construct (mem : PriceLevel) : PriceLevel :=
  { mem with
    priceCents := 0, totalShares := 0, headOrder := none, tailOrder := none, orderCount := 0,
    side := .buy, prevLevel := none, nextLevel := none }

/-- `reset`: the level starts at a price and a side, with an empty queue. -/
def reset (lvl : PriceLevel) (px : Price) (s : Side) : PriceLevel :=
  { lvl with
    priceCents := px, totalShares := 0, headOrder := none, tailOrder := none, orderCount := 0,
    side := s, prevLevel := none, nextLevel := none }

/-- Appends an order to the queue. -/
def pushBack (lvl : PriceLevel) (orders : Ptr → Order) (o : Ptr) : PriceLevel × (Ptr → Order) :=
  let orders := modify orders o fun x => { x with next := none, prev := lvl.tailOrder }
  let (lvl, orders) :=
    match lvl.tailOrder with
    | some tail => (lvl, modify orders tail fun x => { x with next := some o })
    | none => ({ lvl with headOrder := some o }, orders)
  ({ lvl with
      tailOrder := some o
      totalShares := lvl.totalShares + (orders o).sharesRemaining.toUInt64
      orderCount := lvl.orderCount + 1 }, orders)

/-- Takes an order out of the queue; the neighbours on both sides, or the ends of the queue, are
relinked around it. -/
def unlink (lvl : PriceLevel) (orders : Ptr → Order) (o : Ptr) : PriceLevel × (Ptr → Order) :=
  let (lvl, orders) :=
    match (orders o).prev with
    | some before => (lvl, modify orders before fun x => { x with next := (orders o).next })
    | none => ({ lvl with headOrder := (orders o).next }, orders)
  let (lvl, orders) :=
    match (orders o).next with
    | some behind => (lvl, modify orders behind fun x => { x with prev := (orders o).prev })
    | none => ({ lvl with tailOrder := (orders o).prev }, orders)
  ({ lvl with orderCount := lvl.orderCount - 1 },
    modify orders o fun x => { x with next := none, prev := none })

/-- `unlink_and_deduct`: the shares of the order leave the level with it. -/
def unlinkAndDeduct (lvl : PriceLevel) (orders : Ptr → Order) (o : Ptr) :
    PriceLevel × (Ptr → Order) :=
  let lvl := { lvl with totalShares := lvl.totalShares - (orders o).sharesRemaining.toUInt64 }
  lvl.unlink orders o

/-- Whether no order is left. -/
def empty (lvl : PriceLevel) : Bool :=
  lvl.orderCount = 0

end PriceLevel
end ItchParser
