import ItchParser.Market

/-!
# What the calls do to the live orders

Without its capacities a market is a list of live orders that every call edits. `liveStep` is that
edit, and `Rejects` says when a capacity gets in the way. A call that is not rejected edits the list
of the market, and `pool_exhausted` counts the others.
-/

namespace ItchParser

open Ladder OrderBook

/-- The live order with an id. -/
def findIn (live : List OrderData) (id : OrderReferenceNumber) : Option OrderData :=
  live.find? fun d => d.orderId = id

/-- E, C and X: the order is taken off when no shares are left. -/
def reduceIn (live : List OrderData) (id : OrderReferenceNumber) (qty : Shares) :
    List OrderData :=
  match findIn live id with
  | none => live
  | some d => if qty ≥ d.sharesRemaining then without live id else reducedBy live id qty

/-- The live orders after a call that finds room in the pools. -/
def liveStep (live : List OrderData) : Call → List OrderData
  | .addOrder locate id bsi qty px ts mpid attributed =>
      if (findIn live id).isSome then live
      else
        live ++ [⟨id, locate, px, qty, toSide bsi, ts, if attributed then mpid else MPID.blank⟩]
  | .orderExecuted _ id execQty _ => reduceIn live id execQty
  | .orderExecutedWithPrice _ id execQty _ _ _ => reduceIn live id execQty
  | .orderCancel _ id cancelledQty => reduceIn live id cancelledQty
  | .orderDelete _ id => without live id
  | .orderReplace _ oldId newId newQty newPx ts =>
      match findIn live oldId with
      | none => live
      | some d =>
          if (findIn live newId).isSome then live
          else without live oldId ++ [Market.replacement d newId newQty newPx ts]
  | .crossTrade locate xtype =>
      if xtype = CrossType.Closing then live.filter fun d => d.locate ≠ locate else live
  | _ => live

/-- The order `d` finds no level for it. -/
def LevelsFull (caps : Capacities) (live : List OrderData) (d : OrderData) : Prop :=
  opensFor live d = true ∧ caps.levels ≤ levelCount live

/-- One of the pools is exhausted by the call. -/
def Rejects (caps : Capacities) (live : List OrderData) : Call → Prop
  | .addOrder locate id bsi qty px ts mpid attributed =>
      findIn live id = none ∧ (caps.orders ≤ live.length ∨ LevelsFull caps live
        ⟨id, locate, px, qty, toSide bsi, ts, if attributed then mpid else MPID.blank⟩)
  | .orderReplace _ oldId newId newQty newPx ts =>
      ∃ d, findIn live oldId = some d ∧ findIn live newId = none ∧
        (caps.orders ≤ live.length ∨ d.priceCents ≠ kEmptyPrice ∧
          LevelsFull caps (without live d.orderId) (Market.replacement d newId newQty newPx ts))
  | _ => False

/-- The price of an order that the call would put on a book. -/
def Call.price? : Call → Option Price
  | .addOrder _ _ _ _ px _ _ _ => some px
  | .orderReplace _ _ _ _ newPx _ => some newPx
  | _ => none

/-- No order rests at the price that the level map reserves. -/
def NoReserved (live : List OrderData) : Prop :=
  ∀ d ∈ live, d.priceCents ≠ kEmptyPrice

section Find

variable {live : List OrderData} {id id' : OrderReferenceNumber} {d : OrderData} {qty : Shares}

/-- The search fails when no order has the id. -/
theorem findIn_eq_none : findIn live id = none ↔ ∀ d ∈ live, d.orderId ≠ id := by
  simp [findIn, List.find?_eq_none]

/-- What the search finds is live and has the id. -/
theorem mem_of_findIn (h : findIn live id = some d) : d ∈ live ∧ d.orderId = id :=
  ⟨List.mem_of_find?_eq_some h, by simpa using List.find?_some h⟩

/-- With distinct ids the search finds the order of an id. -/
theorem findIn_eq_some (hnodup : (live.map OrderData.orderId).Nodup) :
    findIn live id = some d ↔ d ∈ live ∧ d.orderId = id :=
  ⟨mem_of_findIn, fun h =>
    (Market.find_eq_some (m := ⟨live, fun _ => false, {}, hnodup⟩)).mpr h⟩

/-- Taking an unknown id out changes nothing. -/
theorem without_eq_self (h : findIn live id = none) : without live id = live :=
  List.filter_eq_self.mpr fun d hd => by simpa using findIn_eq_none.mp h d hd

/-- The orders that stay. -/
theorem mem_without : d ∈ without live id ↔ d ∈ live ∧ d.orderId ≠ id := by
  simp [without]

/-- Every order keeps its price when shares are taken off one of them. -/
theorem mem_reducedBy (h : d ∈ reducedBy live id qty) : ∃ d' ∈ live, d'.orderId = d.orderId ∧
    d'.locate = d.locate ∧ d'.side = d.side ∧ d'.priceCents = d.priceCents := by
  obtain ⟨d', hd', rfl⟩ := List.mem_map.mp h
  refine ⟨d', hd', ?_⟩
  split <;> exact ⟨rfl, rfl, rfl, rfl⟩

end Find

/-! ## A call that is not rejected -/

namespace Market

variable {caps caps' : Capacities} {m : Market} {d : OrderData} {c : Call}
  {id : OrderReferenceNumber} {qty : Shares} {locate : StockLocate}
  {accept : EngineStats → EngineStats}

/-- The search of a market is the search among its live orders. -/
theorem find_eq (m : Market) (id : OrderReferenceNumber) : m.find id = findIn m.live id := rfl

/-- An order that finds its level is added. -/
theorem place_accepted (hfresh : m.find d.orderId = none) (hroom : ¬ LevelsFull caps m.live d) :
    m.place caps d accept = (m.append d hfresh).count fun s =>
      accept (s.raiseLevels (if opensFor m.live d then 2 else 1)).raiseOrders := by
  unfold Market.place
  rw [dif_pos hfresh]
  exact if_neg hroom

/-- An order that needs a level and finds none is counted. -/
theorem place_rejected (hfresh : m.find d.orderId = none) (hfull : LevelsFull caps m.live d) :
    m.place caps d accept = m.count EngineStats.countLevelPoolExhausted := by
  unfold Market.place
  rw [dif_pos hfresh]
  exact if_pos hfull

/-- An order that finds its level is live. -/
theorem place_live (hfresh : findIn m.live d.orderId = none)
    (hroom : ¬ LevelsFull caps m.live d) : (m.place caps d accept).live = m.live ++ [d] := by
  rw [place_accepted hfresh hroom]
  rfl

/-- E, C and X without orders at the reserved price. -/
theorem reduceOrder_live (hprice : NoReserved m.live) :
    (m.reduceOrder locate id qty accept).live = reduceIn m.live id qty := by
  unfold Market.reduceOrder reduceIn
  rw [find_eq]
  cases hfind : findIn m.live id with
  | none => rfl
  | some d =>
      obtain ⟨hd, rfl⟩ := mem_of_findIn hfind
      simp only [if_neg (hprice d hd)]
      split <;> rfl

/-- Adding an order to a market with room for it. -/
theorem addOrder_live (attributed : Bool)
    (hroom : findIn m.live d.orderId = none → ¬ caps.orders ≤ m.live.length ∧
      ¬ LevelsFull caps m.live d) :
    (m.addOrder caps d attributed).live =
      if (findIn m.live d.orderId).isSome then m.live else m.live ++ [d] := by
  unfold Market.addOrder
  rw [find_eq]
  cases hfind : findIn m.live d.orderId with
  | some d' => rfl
  | none =>
      obtain ⟨horders, hlevels⟩ := hroom hfind
      simp only [Option.isSome_none, Bool.false_eq_true, if_false]
      rw [if_neg (show ¬ caps.orders ≤ (m.know d.locate).live.length from horders),
        place_accepted (m := m.know d.locate) hfind hlevels]
      rfl

/-- Replacing an order in a market with room for the new one. -/
theorem orderReplace_live {oldId newId : OrderReferenceNumber} {newPx : Price} {ts : Timestamp}
    (hprice : NoReserved m.live)
    (hroom : ∀ d, findIn m.live oldId = some d → findIn m.live newId = none →
      ¬ caps.orders ≤ m.live.length ∧
        ¬ LevelsFull caps (without m.live d.orderId) (replacement d newId qty newPx ts)) :
    (m.orderReplace caps locate oldId newId qty newPx ts).live =
      match findIn m.live oldId with
      | none => m.live
      | some d =>
          if (findIn m.live newId).isSome then m.live
          else without m.live oldId ++ [replacement d newId qty newPx ts] := by
  unfold Market.orderReplace
  rw [find_eq]
  cases hold : findIn m.live oldId with
  | none => rfl
  | some d =>
      obtain ⟨hd, rfl⟩ := mem_of_findIn hold
      simp only [count_live, find_eq]
      by_cases hnew : (findIn m.live newId).isSome
      · simp only [hnew, if_true, count_live]
      · have hnone : findIn m.live newId = none := by simpa using hnew
        obtain ⟨horders, hlevels⟩ := hroom d hold hnone
        have hfresh : findIn (without m.live d.orderId) newId = none :=
          findIn_eq_none.mpr fun x hx => findIn_eq_none.mp hnone x (mem_without.mp hx).1
        simp only [hnew, horders, hprice d hd, Bool.false_eq_true, if_false]
        exact place_live hfresh hlevels

/-- A call that is not rejected edits the live orders. -/
theorem step_live (hprice : NoReserved m.live) (hroom : ¬ Rejects caps m.live c) :
    (m.step caps c).live = liveStep m.live c := by
  cases c with
  | addOrder locate id bsi qty px ts mpid attributed =>
      exact addOrder_live attributed fun hfind => not_or.mp fun h => hroom ⟨hfind, h⟩
  | orderExecuted locate id execQty matchNo => exact reduceOrder_live hprice
  | orderExecutedWithPrice locate id execQty matchNo printable execPx =>
      exact reduceOrder_live hprice
  | orderCancel locate id cancelledQty => exact reduceOrder_live hprice
  | orderDelete locate id =>
      simp only [Market.step, Market.orderDelete, liveStep, find_eq]
      cases hfind : findIn m.live id with
      | none => exact (without_eq_self hfind).symm
      | some d =>
          obtain ⟨hd, rfl⟩ := mem_of_findIn hfind
          simp only [if_neg (hprice d hd)]
          rfl
  | orderReplace locate oldId newId newQty newPx ts =>
      refine orderReplace_live hprice fun d hold hnew => ?_
      have hrejects := fun h => hroom ⟨d, hold, hnew, h⟩
      exact ⟨fun h => hrejects (.inl h), fun h =>
        hrejects (.inr ⟨hprice d (mem_of_findIn hold).1, h⟩)⟩
  | crossTrade locate xtype =>
      simp only [Market.step, Market.crossTrade, liveStep]
      by_cases hx : xtype = CrossType.Closing
      · simp only [hx, ne_eq, not_true_eq_false, if_false, if_true]
        rfl
      · simp only [hx, ne_eq, not_false_eq_true, if_true, if_false]
        rfl
  | stockDirectory locate _ _ _ _ _ _ _ _ _ _ _ _ =>
      simp only [Market.step, liveStep]
      split <;> rfl
  | tradingAction _ _ _ _ => rfl
  | regSho _ _ => rfl
  | nonCrossTrade _ _ _ _ => rfl
  | brokenTrade _ _ => rfl

end Market
end ItchParser
