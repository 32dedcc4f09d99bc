import Mathlib.Data.List.Sort
import ItchParser.Market.Levels
import ItchParser.Market.Live

/-!
# Reference: books in price-time priority

The reference keeps a finite map from the live ids to what the orders say, with a number for the
arrival of each order. A book is the map's orders of one locate and one side, sorted: prices best
first, and the orders at a price by their arrival numbers. Nothing here knows about queues, levels
or pools.

`Stands` relates a reference to a list of live orders in order of arrival. Every call keeps it.
-/

namespace ItchParser

open Ladder OrderBook

/-- What the reference says about a live order. -/
structure Entry where
  locate : StockLocate
  side : Side
  price : Price
  shares : Shares
  mpid : MPID
  timestamp : Timestamp
  arrival : Nat
  deriving DecidableEq

/-- The order with id `id`. -/
def Entry.data (x : Entry) (id : OrderReferenceNumber) : OrderData :=
  ⟨id, x.locate, x.price, x.shares, x.side, x.timestamp, x.mpid⟩

/-- The live orders by id, and the next arrival number. -/
structure Reference where
  orders : AList fun _ : OrderReferenceNumber => Entry
  arrivals : Nat

/-- The price `a` is `b` or better. -/
def AtLeast (s : Side) (a b : Price) : Prop :=
  a = b ∨ BookState.ahead s a b = true

instance (s : Side) : DecidableRel (AtLeast s) := fun a b =>
  inferInstanceAs (Decidable (a = b ∨ BookState.ahead s a b = true))

instance (s : Side) : Std.Total (AtLeast s) where
  total a b := by
    rcases (pricePolicy_lawful s).total a b with h | h | h
    · exact .inl (.inr h)
    · exact .inl (.inl h)
    · exact .inr (.inr h)

instance (s : Side) : IsTrans Price (AtLeast s) where
  trans := by
    rintro a b c (rfl | hab) (rfl | hbc)
    · exact .inl rfl
    · exact .inr hbc
    · exact .inr hab
    · exact .inr ((pricePolicy_lawful s).trans hab hbc)

/-- Two prices that are as good as each other are equal. -/
theorem AtLeast.antisymm {s : Side} {a b : Price} (hab : AtLeast s a b) (hba : AtLeast s b a) :
    a = b := by
  rcases hab with rfl | hab
  · rfl
  · rcases hba with rfl | hba
    · rfl
    · have hirrefl := (pricePolicy_lawful s).irrefl a
      rw [(pricePolicy_lawful s).trans hab hba] at hirrefl
      cases hirrefl

namespace Reference

/-- No orders yet. -/
def empty : Reference :=
  ⟨∅, 0⟩

/-- A new order arrives. -/
def arrive (r : Reference) (id : OrderReferenceNumber) (x : Entry) : Reference :=
  ⟨r.orders.insert id { x with arrival := r.arrivals }, r.arrivals + 1⟩

/-- An order is gone. -/
def remove (r : Reference) (id : OrderReferenceNumber) : Reference :=
  { r with orders := r.orders.erase id }

/-- `qty` shares of an order are gone; its arrival number stays. -/
def reduce (r : Reference) (id : OrderReferenceNumber) (qty : Shares) : Reference :=
  match r.orders.lookup id with
  | none => r
  | some x =>
      if qty ≥ x.shares then r.remove id
      else { r with orders := r.orders.insert id { x with shares := x.shares - qty } }

/-- Drops every order of one locate. -/
def clear (r : Reference) (locate : StockLocate) : Reference :=
  { r with
    orders :=
      { entries := r.orders.entries.filter fun e => e.2.locate ≠ locate
        nodupKeys := r.orders.nodupKeys.sublist List.filter_sublist } }

/-- What a call does to the reference. -/
def step (r : Reference) : Call → Reference
  | .addOrder locate id bsi qty px ts mpid attributed =>
      if (r.orders.lookup id).isSome then r
      else
        r.arrive id
          ⟨locate, toSide bsi, px, qty, if attributed then mpid else MPID.blank, ts, r.arrivals⟩
  | .orderExecuted _ id execQty _ => r.reduce id execQty
  | .orderExecutedWithPrice _ id execQty _ _ _ => r.reduce id execQty
  | .orderCancel _ id cancelledQty => r.reduce id cancelledQty
  | .orderDelete _ id => r.remove id
  | .orderReplace _ oldId newId newQty newPx ts =>
      match r.orders.lookup oldId with
      | none => r
      | some x =>
          if (r.orders.lookup newId).isSome then r
          else
            (r.remove oldId).arrive newId
              { x with price := newPx, shares := newQty, timestamp := ts }
  | .crossTrade locate xtype => if xtype = CrossType.Closing then r.clear locate else r
  | _ => r

/-- The orders of one side of one book. -/
def onBook (r : Reference) (locate : StockLocate) (s : Side) :
    List (Sigma fun _ : OrderReferenceNumber => Entry) :=
  r.orders.entries.filter fun e => e.2.locate = locate ∧ e.2.side = s

/-- The prices of one side, best first. -/
def prices (r : Reference) (locate : StockLocate) (s : Side) : List Price :=
  ((r.onBook locate s).map fun e => e.2.price).dedup.insertionSort (AtLeast s)

/-- The orders at one price, first arrival first. -/
def queue (r : Reference) (locate : StockLocate) (s : Side) (px : Price) : List OrderData :=
  (((r.onBook locate s).filter fun e => e.2.price = px).insertionSort fun e e' =>
    e.2.arrival ≤ e'.2.arrival).map fun e => e.2.data e.1

/-- One side of one book. -/
def book (r : Reference) (locate : StockLocate) (s : Side) : List (Price × List OrderData) :=
  (r.prices locate s).map fun px => (px, r.queue locate s px)

/-- The live order with an id. -/
def find (r : Reference) (id : OrderReferenceNumber) : Option OrderData :=
  (r.orders.lookup id).map fun x => x.data id

/-- The arrival number of an id. -/
def arrivalOf (r : Reference) (id : OrderReferenceNumber) : Nat :=
  ((r.orders.lookup id).map Entry.arrival).getD 0

/-- The reference knows the orders `live`, and they arrived in this order. -/
structure Stands (r : Reference) (live : List OrderData) : Prop where
  find_eq : ∀ id, r.find id = findIn live id
  sorted : live.Pairwise fun d d' => r.arrivalOf d.orderId < r.arrivalOf d'.orderId
  bound : ∀ d ∈ live, r.arrivalOf d.orderId < r.arrivals

end Reference

/-! ## Looking up after an edit -/

section Find

variable {live : List OrderData} {d : OrderData} {id id' : OrderReferenceNumber} {qty : Shares}

/-- The search behind a new order. -/
theorem findIn_append : findIn (live ++ [d]) id =
    (findIn live id).or (if d.orderId = id then some d else none) := by
  unfold findIn
  rw [List.find?_append, List.find?_singleton]
  simp

/-- The search after an order has left. -/
theorem findIn_without :
    findIn (without live id) id' = if id' = id then none else findIn live id' := by
  unfold findIn without
  rw [List.find?_filter]
  split
  · next h => simp [h]
  · next h =>
      congr 1
      funext d
      by_cases hd : d.orderId = id'
      · simp [hd, h]
      · simp [hd]

/-- The search after a reduction. -/
theorem findIn_reducedBy : findIn (reducedBy live id qty) id' = (findIn live id').map fun d =>
    if d.orderId = id then { d with sharesRemaining := d.sharesRemaining - qty } else d := by
  unfold findIn reducedBy
  rw [List.find?_map]
  congr 2
  funext d
  simp only [Function.comp_apply]
  split <;> rfl

/-- The search among some of the orders. -/
theorem findIn_filter (p : OrderData → Bool) (hnodup : (live.map OrderData.orderId).Nodup) :
    findIn (live.filter p) id = (findIn live id).filter p := by
  have hnodup' : ((live.filter p).map OrderData.orderId).Nodup :=
    hnodup.sublist (List.filter_sublist.map _)
  refine Option.ext fun d => ?_
  rw [findIn_eq_some hnodup', Option.filter_eq_some_iff, findIn_eq_some hnodup, List.mem_filter]
  tauto

end Find

namespace Reference

variable {r : Reference} {live : List OrderData} {d : OrderData} {x : Entry} {px : Price} {s : Side}
  {id id' oldId newId : OrderReferenceNumber} {qty : Shares} {locate : StockLocate}

/-! ## Every call keeps the relation -/

/-- An arriving order takes its id. -/
theorem lookup_arrive : (r.arrive id x).orders.lookup id' =
    if id' = id then some { x with arrival := r.arrivals } else r.orders.lookup id' := by
  unfold arrive
  split
  · next h => rw [h, AList.lookup_insert]
  · next h => rw [AList.lookup_insert_ne h]

/-- A removed order frees its id. -/
theorem lookup_remove : (r.remove id).orders.lookup id' =
    if id' = id then none else r.orders.lookup id' := by
  unfold remove
  split
  · next h => rw [h, AList.lookup_erase]
  · next h => rw [AList.lookup_erase_ne h]

/-- Clearing a book frees the ids of its orders. -/
theorem lookup_clear : (r.clear locate).orders.lookup id =
    (r.orders.lookup id).filter fun x => x.locate ≠ locate := by
  refine Option.ext fun x => ?_
  rw [Option.filter_eq_some_iff, ← Option.mem_def, AList.mem_lookup_iff, ← Option.mem_def,
    AList.mem_lookup_iff]
  simp [clear]

/-- The live orders have distinct ids. -/
theorem Stands.nodup (h : r.Stands live) : (live.map OrderData.orderId).Nodup := by
  rw [List.Nodup, List.pairwise_map]
  exact h.sorted.imp fun hlt he => by simp [he] at hlt

/-- An id without a live order is unknown to the reference. -/
theorem Stands.lookup_none (h : r.Stands live) (hnone : findIn live id = none) :
    r.orders.lookup id = none := by
  rw [← h.find_eq] at hnone
  simpa [find] using hnone

/-- The reference knows a live order by its id. -/
theorem Stands.lookup_some (h : r.Stands live) (hsome : findIn live id = some d) :
    ∃ x, r.orders.lookup id = some x ∧ x.data id = d := by
  rw [← h.find_eq] at hsome
  simpa [find] using hsome

/-- The arrival numbers of a live order before and after, when its entry keeps its number. -/
theorem arrivalOf_congr {r' : Reference}
    (hlookup : (r'.orders.lookup id).map Entry.arrival = (r.orders.lookup id).map Entry.arrival) :
    r'.arrivalOf id = r.arrivalOf id := by
  rw [arrivalOf, arrivalOf, hlookup]

/-- A fresh order arrives in both. -/
theorem Stands.arrive (h : r.Stands live) (hfresh : findIn live id = none) (x : Entry) :
    (r.arrive id x).Stands (live ++ [x.data id]) := by
  have hne : ∀ d ∈ live, d.orderId ≠ id := findIn_eq_none.mp hfresh
  have hold : ∀ d ∈ live, (r.arrive id x).arrivalOf d.orderId = r.arrivalOf d.orderId := by
    intro d hd
    refine arrivalOf_congr ?_
    rw [lookup_arrive, if_neg (hne d hd)]
  have hnew : (r.arrive id x).arrivalOf id = r.arrivals := by
    rw [arrivalOf, lookup_arrive, if_pos rfl]
    rfl
  refine ⟨fun id' => ?_, ?_, fun d hd => ?_⟩
  · rw [find, lookup_arrive, findIn_append, ← h.find_eq]
    by_cases hid : id' = id
    · subst hid
      rw [h.find_eq, hfresh]
      simp [Entry.data]
    · rw [if_neg hid, if_neg (show (x.data id).orderId ≠ id' from fun he => hid he.symm),
        Option.or_none]
      rfl
  · refine List.pairwise_append.mpr ⟨h.sorted.imp_of_mem fun ha hb hlt => ?_,
      List.pairwise_singleton _ _, fun a ha b hb => ?_⟩
    · rwa [hold _ ha, hold _ hb]
    · rw [List.mem_singleton.mp hb, hold a ha]
      exact (h.bound a ha).trans_eq hnew.symm
  · show _ < r.arrivals + 1
    rcases List.mem_append.mp hd with hd | hd
    · rw [hold d hd]
      exact (h.bound d hd).trans (Nat.lt_succ_self _)
    · rw [List.mem_singleton.mp hd]
      exact hnew.trans_lt (Nat.lt_succ_self _)

/-- Dropping orders keeps the order of the others. -/
theorem Stands.restrict (h : r.Stands live) {r' : Reference} (p : OrderData → Bool)
    (hfind : ∀ id, r'.find id = findIn (live.filter p) id) (harrivals : r'.arrivals = r.arrivals)
    (hold : ∀ d ∈ live.filter p, r'.arrivalOf d.orderId = r.arrivalOf d.orderId) :
    r'.Stands (live.filter p) := by
  refine ⟨hfind, ?_, fun d hd => ?_⟩
  · refine (h.sorted.sublist List.filter_sublist).imp_of_mem fun ha hb hlt => ?_
    rwa [hold _ ha, hold _ hb]
  · rw [hold d hd, harrivals]
    exact h.bound d (List.mem_filter.mp hd).1

/-- An order leaves both. -/
theorem Stands.remove (h : r.Stands live) (id : OrderReferenceNumber) :
    (r.remove id).Stands (without live id) := by
  refine h.restrict _ (fun id' => ?_) rfl fun d hd => arrivalOf_congr ?_
  · show _ = findIn (without live id) id'
    rw [find, lookup_remove, findIn_without, ← h.find_eq]
    split <;> rfl
  · rw [lookup_remove, if_neg (mem_without.mp hd).2]

/-- A book is cleared in both. -/
theorem Stands.clear (h : r.Stands live) (locate : StockLocate) :
    (r.clear locate).Stands (live.filter fun d => d.locate ≠ locate) := by
  refine h.restrict _ (fun id => ?_) rfl fun d hd => arrivalOf_congr ?_
  · rw [find, lookup_clear, findIn_filter _ h.nodup, ← h.find_eq, find]
    cases r.orders.lookup id with
    | none => rfl
    | some x =>
        by_cases hx : x.locate = locate <;> simp [Option.filter, Entry.data, hx]
  · obtain ⟨hmem, hl⟩ := List.mem_filter.mp hd
    obtain ⟨x, hx, hdata⟩ := h.lookup_some ((findIn_eq_some h.nodup).mpr ⟨hmem, rfl⟩)
    have hxl : x.locate ≠ locate := by
      have hxd : x.locate = d.locate := congrArg OrderData.locate hdata
      rw [hxd]
      simpa using hl
    rw [lookup_clear, hx]
    simp [Option.filter, hxl]

/-- An order is reduced in both. -/
theorem Stands.reduce (h : r.Stands live) (id : OrderReferenceNumber) (qty : Shares) :
    (r.reduce id qty).Stands (reduceIn live id qty) := by
  unfold Reference.reduce reduceIn
  cases hfind : findIn live id with
  | none =>
      rw [h.lookup_none hfind]
      exact h
  | some d =>
      obtain ⟨x, hx, rfl⟩ := h.lookup_some hfind
      rw [hx]
      show (if qty ≥ x.shares then _ else _ : Reference).Stands
        (if qty ≥ x.shares then _ else _)
      split
      · exact h.remove id
      · -- the entry is replaced, and its id keeps its place among the arrivals
        have hold : ∀ id', (⟨r.orders.insert id { x with shares := x.shares - qty },
            r.arrivals⟩ : Reference).arrivalOf id' = r.arrivalOf id' := by
          intro id'
          refine arrivalOf_congr ?_
          by_cases hid : id' = id
          · subst hid
            rw [AList.lookup_insert, hx]
            rfl
          · rw [AList.lookup_insert_ne hid]
        refine ⟨fun id' => ?_, ?_, fun d hd => ?_⟩
        · rw [findIn_reducedBy, ← h.find_eq]
          unfold find
          by_cases hid : id' = id
          · subst hid
            rw [AList.lookup_insert, hx]
            simp [Entry.data]
          · rw [AList.lookup_insert_ne hid]
            cases r.orders.lookup id' with
            | none => rfl
            | some y => simp [Entry.data, hid]
        · unfold reducedBy
          rw [List.pairwise_map]
          refine h.sorted.imp fun hlt => ?_
          rw [hold, hold]
          split <;> split <;> exact hlt
        · rw [hold]
          obtain ⟨d', hd', hid, -⟩ := mem_reducedBy hd
          rw [← hid]
          exact h.bound d' hd'

/-- A call that finds room in the pools is a step of the reference. -/
theorem Stands.step (h : r.Stands live) (c : Call) : (r.step c).Stands (liveStep live c) := by
  have hisSome : ∀ id, (r.orders.lookup id).isSome = (findIn live id).isSome := by
    intro id
    rw [← h.find_eq, find, Option.isSome_map]
  cases c with
  | addOrder locate id bsi qty px ts mpid attributed =>
      simp only [Reference.step, liveStep, hisSome]
      split
      · exact h
      · next hfind => exact h.arrive (by simpa using hfind) _
  | orderExecuted locate id execQty matchNo => exact h.reduce id execQty
  | orderExecutedWithPrice locate id execQty matchNo printable execPx => exact h.reduce id execQty
  | orderCancel locate id cancelledQty => exact h.reduce id cancelledQty
  | orderDelete locate id => exact h.remove id
  | orderReplace locate oldId newId newQty newPx ts =>
      simp only [Reference.step, liveStep]
      cases hfind : findIn live oldId with
      | none =>
          rw [h.lookup_none hfind]
          exact h
      | some d =>
          obtain ⟨x, hx, rfl⟩ := h.lookup_some hfind
          simp only [hx, hisSome]
          split
          · exact h
          · next hnew =>
              have hnone : findIn live newId = none := by simpa using hnew
              refine (h.remove oldId).arrive ?_ { x with
                price := newPx, shares := newQty, timestamp := ts }
              rw [findIn_without, hnone]
              simp
  | crossTrade locate xtype =>
      simp only [Reference.step, liveStep]
      split
      · exact h.clear locate
      · exact h
  | stockDirectory _ _ _ _ _ _ _ _ _ _ _ _ _ => exact h
  | tradingAction _ _ _ _ => exact h
  | regSho _ _ => exact h
  | nonCrossTrade _ _ _ _ => exact h
  | brokenTrade _ _ => exact h

/-! ## The books -/

/-- What an entry of the map says. -/
def entryData (e : Sigma fun _ : OrderReferenceNumber => Entry) : OrderData :=
  e.2.data e.1

/-- The entries of the map are the live orders. -/
theorem Stands.entries_perm (h : r.Stands live) : (r.orders.entries.map entryData).Perm live := by
  have hids : (r.orders.entries.map entryData).map OrderData.orderId = r.orders.keys := by
    rw [List.map_map]
    rfl
  refine (List.perm_ext_iff_of_nodup ?_ (h.nodup.of_map _)).mpr fun d => ?_
  · exact List.Nodup.of_map OrderData.orderId (hids ▸ r.orders.nodupKeys)
  · rw [← and_iff_left (a := d ∈ live) (rfl : d.orderId = d.orderId), ← findIn_eq_some h.nodup,
      ← h.find_eq, find, Option.map_eq_some_iff, List.mem_map]
    constructor
    · rintro ⟨⟨id, x⟩, he, rfl⟩
      exact ⟨x, AList.mem_lookup_iff.mpr he, rfl⟩
    · rintro ⟨x, hx, hd⟩
      exact ⟨⟨d.orderId, x⟩, AList.mem_lookup_iff.mp hx, hd⟩

/-- The reference has the same orders on a side of a book. -/
theorem Stands.onBook_perm (h : r.Stands live) (locate : StockLocate) (s : Side) :
    ((r.onBook locate s).map entryData).Perm (restingOn live locate s) := by
  have hfilter : (r.onBook locate s).map entryData =
      restingOn (r.orders.entries.map entryData) locate s := by
    rw [restingOn, List.filter_map]
    rfl
  rw [hfilter]
  exact h.entries_perm.filter _

/-- The arrival number of an entry. -/
theorem arrivalOf_entry {e : Sigma fun _ : OrderReferenceNumber => Entry}
    (he : e ∈ r.orders.entries) : r.arrivalOf e.1 = e.2.arrival := by
  have hlookup : r.orders.lookup e.1 = some e.2 := AList.mem_lookup_iff.mpr he
  rw [arrivalOf, hlookup]
  rfl

/-- The queue of a price holds its live orders, in order of arrival. -/
theorem Stands.queue_eq (h : r.Stands live) (locate : StockLocate) (s : Side) (px : Price) :
    r.queue locate s px = (restingOn live locate s).filter fun d => d.priceCents = px := by
  have hinj : ∀ a ∈ live, ∀ b ∈ live, r.arrivalOf a.orderId = r.arrivalOf b.orderId → a = b := by
    have hnodup : (live.map fun d => r.arrivalOf d.orderId).Nodup := by
      rw [List.Nodup, List.pairwise_map]
      exact h.sorted.imp Nat.ne_of_lt
    exact fun a ha b hb he => List.inj_on_of_nodup_map hnodup ha hb he
  have hperm : (r.queue locate s px).Perm
      ((restingOn live locate s).filter fun d => d.priceCents = px) := by
    refine ((List.perm_insertionSort _ _).map entryData).trans ?_
    have hfilter : ((r.onBook locate s).filter fun e => e.2.price = px).map entryData =
        ((r.onBook locate s).map entryData).filter fun d => d.priceCents = px := by
      rw [List.filter_map]
      rfl
    rw [hfilter]
    exact (h.onBook_perm locate s).filter _
  have hlive : ∀ d ∈ (restingOn live locate s).filter fun d => d.priceCents = px, d ∈ live :=
    fun d hd => (List.mem_filter.mp (List.mem_filter.mp hd).1).1
  have hqueue : (r.queue locate s px).Pairwise fun a b =>
      r.arrivalOf a.orderId ≤ r.arrivalOf b.orderId := by
    rw [queue, List.pairwise_map]
    refine (List.pairwise_insertionSort _ _).imp_of_mem fun ha hb hle => ?_
    rw [List.mem_insertionSort] at ha hb
    have hentry : ∀ e ∈ (r.onBook locate s).filter fun e => e.2.price = px, e ∈ r.orders.entries :=
      fun e he => (List.mem_filter.mp (List.mem_filter.mp he).1).1
    exact (arrivalOf_entry (hentry _ ha)).trans_le
      (hle.trans_eq (arrivalOf_entry (hentry _ hb)).symm)
  have hsorted : ((restingOn live locate s).filter fun d => d.priceCents = px).Pairwise fun a b =>
      r.arrivalOf a.orderId ≤ r.arrivalOf b.orderId :=
    (h.sorted.sublist (List.filter_sublist.trans List.filter_sublist)).imp Nat.le_of_lt
  refine List.Perm.eq_of_pairwise (fun a b ha hb hab hba => ?_) hqueue hsorted hperm
  exact hinj a (hlive a (hperm.mem_iff.mp ha)) b (hlive b hb) (Nat.le_antisymm hab hba)

/-- The prices of a ladder without the reserved price are sorted. -/
theorem bookOf_prices_sorted (hprice : NoReserved live) (locate : StockLocate) (s : Side) :
    ((bookOf live locate s).map Prod.fst).Pairwise fun a b => BookState.ahead s a b = true := by
  rw [List.pairwise_map]
  refine (ladder_sorted (pricePolicy_lawful s) _).imp_of_mem fun ha _ hab => ?_
  rcases hab with hab | ⟨_, hshared⟩
  · exact hab
  · obtain ⟨hne, hkeys⟩ := ladder_grouped _ _ ha
    obtain ⟨d, hd⟩ := List.exists_mem_of_ne_nil _ hne
    have hd' := (List.mem_filter.mp (mem_of_group ha hd)).1
    have hpx := pricePolicy_shared (s := s).mpr (hprice d hd')
    rw [hkeys d hd, hshared] at hpx
    cases hpx

/-- The reference has the same prices on a side of a book, best first. -/
theorem Stands.prices_eq (h : r.Stands live) (hprice : NoReserved live) (locate : StockLocate)
    (s : Side) : r.prices locate s = (bookOf live locate s).map Prod.fst := by
  have hsorted := bookOf_prices_sorted hprice locate s
  have hP := pricePolicy_lawful s
  have hprices : (r.prices locate s).Pairwise (AtLeast s) := List.pairwise_insertionSort _ _
  refine List.Perm.eq_of_pairwise (fun a b _ _ => AtLeast.antisymm) hprices
    (hsorted.imp fun hab => .inr hab) ?_
  refine (List.perm_insertionSort _ _).trans
    ((List.perm_ext_iff_of_nodup (List.nodup_dedup _) (hsorted.imp hP.ne)).mpr fun px => ?_)
  rw [List.mem_dedup, List.mem_map, List.mem_map]
  constructor
  · rintro ⟨e, he, rfl⟩
    have hd := (h.onBook_perm locate s).mem_iff.mp (List.mem_map_of_mem (f := entryData) he)
    obtain ⟨g, hg, hmem⟩ : ∃ g ∈ bookOf live locate s, _ ∈ g.2 := exists_group hd
    exact ⟨g, hg, ((ladder_grouped _ _ hg).2 _ hmem).symm⟩
  · rintro ⟨g, hg, rfl⟩
    obtain ⟨hne, hkeys⟩ := ladder_grouped _ _ hg
    obtain ⟨d, hd⟩ := List.exists_mem_of_ne_nil _ hne
    obtain ⟨e, he, rfl⟩ := List.mem_map.mp
      ((h.onBook_perm locate s).mem_iff.mpr (mem_of_group hg hd))
    exact ⟨e, he, hkeys _ hd⟩

/-- The books of the reference are the ladders of the live orders. -/
theorem Stands.book_eq (h : r.Stands live) (hprice : NoReserved live) (locate : StockLocate)
    (s : Side) : r.book locate s = bookOf live locate s := by
  rw [book, h.prices_eq hprice, List.map_map]
  refine (List.map_congr_left fun g hg => ?_).trans (List.map_id _)
  obtain ⟨hne, hkeys⟩ := ladder_grouped _ _ hg
  obtain ⟨d, hd⟩ := List.exists_mem_of_ne_nil _ hne
  have hshared : (pricePolicy s).shared g.1 = true := by
    rw [← hkeys d hd]
    exact pricePolicy_shared.mpr (hprice d (List.mem_filter.mp (mem_of_group hg hd)).1)
  show (g.1, r.queue locate s g.1) = g
  rw [h.queue_eq, ← group_eq (pricePolicy_lawful s) hg hshared]

end Reference
end ItchParser
