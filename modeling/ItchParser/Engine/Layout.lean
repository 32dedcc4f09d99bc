import ItchParser.Engine.Books
import ItchParser.OrderBook.Add
import ItchParser.OrderBook.Remove

/-!
# Where the engine keeps its orders

A `Layout` says which slots hold the live orders, in order of arrival, which order slots a handler
has acquired on top of them, and which slots are free. Books, order pool and index agree on it. The
lemmas below are the three things a handler does with it: give a slot back, put a constructed order
on its book and into the index, and take an order off again.
-/

namespace ItchParser

open Ladder OrderBook Market

namespace MatchingEngine

/-- The sizes of the two pools. -/
def capacities (e : MatchingEngine) : Capacities :=
  ⟨e.orderPool.capacity.toNat, e.levelPool.capacity.toNat⟩

/-- The live orders are in the slots `arrival`, and `held` are further slots in use. -/
structure Layout (e : MatchingEngine) (arrival held freeOrders freeLevels : List Ptr)
    (rungs : StockLocate → Side → List Rung) : Prop where
  holds : e.Holds arrival freeLevels rungs
  orderPool : e.orderPool.Represents freeOrders fun p => p ∈ arrival ∨ p ∈ held
  apart : ∀ p ∈ held, p ∉ arrival
  orderSlots : freeOrders.length + arrival.length + held.length = e.orderPool.capacity.toNat
  index : e.orderIndex.Represents e.orders arrival
  homes : ∀ p ∈ arrival, (e.instruments.book (e.orders p).locate).isSome

variable {e e' : MatchingEngine} {arrival held freeOrders freeLevels freeLevels' : List Ptr}
  {rungs : StockLocate → Side → List Rung} {rungs' : Side → List Rung} {locate : StockLocate}
  {b : OrderBook} {st : BookState} {data : Ptr → OrderData} {o p : Ptr}
  {id : OrderReferenceNumber}

/-- No order is live twice. -/
theorem Layout.nodup (h : e.Layout arrival held freeOrders freeLevels rungs) : arrival.Nodup :=
  h.index.distinct.of_map _

/-- Statistics do not matter. -/
theorem Layout.count (h : e.Layout arrival held freeOrders freeLevels rungs)
    (f : EngineStats → EngineStats) : (e.count f).Layout arrival held freeOrders freeLevels rungs :=
  ⟨h.holds.congr (fun _ => rfl) rfl fun _ _ => rfl, h.orderPool, h.apart, h.orderSlots, h.index,
    h.homes⟩

/-- The orders of different ids are different orders. -/
theorem Layout.id_iff (h : e.Layout arrival held freeOrders freeLevels rungs) (ho : o ∈ arrival)
    (hp : p ∈ arrival) : (e.orders p).orderId = (e.orders o).orderId ↔ p = o :=
  ⟨h.index.eq_of_id hp ho, fun he => by rw [he]⟩

/-- The book of a locate that has one. -/
theorem bookAt_eq (hbook : e.instruments.book locate = some b) : e.bookAt locate = b := by
  rw [bookAt, hbook]; rfl

/-- The book of a locate. -/
theorem Layout.book (h : e.Layout arrival held freeOrders freeLevels rungs)
    (hbook : e.instruments.book locate = some b) :
    (e.bookState b).book.Represents (e.bookState b).orders (e.bookState b).levels
      (atLocate (orderData e.orders) locate arrival) (rungs locate) := by
  have hb := h.holds.books locate
  rw [bookAt_eq hbook] at hb
  exact hb

/-- Writing back a book that did not change changes nothing. -/
theorem putBook_self (hbook : e.instruments.book locate = some b) :
    e.putBook locate (e.bookState b) = e := by
  obtain ⟨inst, hinst⟩ := Option.isSome_iff_exists.mp (InstrumentMap.isSome_of_book hbook)
  have hb : inst.book = some b := by
    unfold InstrumentMap.book at hbook
    rwa [hinst] at hbook
  have hsame : e.instruments.setBook locate b = e.instruments := by
    have hself : { inst with book := some b } = inst := by rw [← hb]
    unfold InstrumentMap.setBook InstrumentMap.set
    rw [hinst]
    simp only [hself]
    rw [← hinst, Function.update_eq_self]
  show ({ e with instruments := e.instruments.setBook locate b } : MatchingEngine) = e
  rw [hsame]

/-- Writing a book removes none. -/
theorem putBook_book_isSome (l : StockLocate) (hbook : (e.instruments.book l).isSome) :
    ((e.putBook locate st).instruments.book l).isSome := by
  show ((e.instruments.setBook locate st.book).book l).isSome
  by_cases hl : l = locate
  · subst hl
    obtain ⟨b, hb⟩ := Option.isSome_iff_exists.mp hbook
    rw [InstrumentMap.setBook_book (InstrumentMap.isSome_of_book hb), Function.update_self]
    rfl
  · have hother : (e.instruments.setBook locate st.book).slots l = e.instruments.slots l := by
      unfold InstrumentMap.setBook
      cases e.instruments.slots locate with
      | none => rfl
      | some inst => exact Function.update_of_ne hl _ _
    rw [InstrumentMap.book, hother]
    exact hbook

/-! ## The order pool -/

/-- Giving a held slot back. -/
theorem Layout.releaseHeld (h : e.Layout arrival [o] freeOrders freeLevels rungs) :
    (e.releaseOrder o).Layout arrival [] (o :: freeOrders) freeLevels rungs := by
  have hne : ∀ p ∈ arrival, p ≠ o := fun p hp he => h.apart o (by simp) (he ▸ hp)
  have hsame : ∀ p ∈ arrival, (e.releaseOrder o).orders p = e.orders p := fun p hp =>
    Function.update_of_ne (hne p hp) _ _
  refine ⟨h.holds.congr (fun _ => rfl) rfl hsame, ?_, by simp, ?_, ?_, fun p hp => ?_⟩
  · refine (h.orderPool.released (p := o) (.inr (by simp))).congr_used fun p => ?_
    have := hne p
    simp only [List.not_mem_nil, or_false, List.mem_singleton]
    tauto
  · have hslots := h.orderSlots
    show (o :: freeOrders).length + arrival.length + [].length = e.orderPool.capacity.toNat
    simp only [List.length_cons, List.length_nil] at hslots ⊢
    omega
  · exact h.index.congr fun p hp => by rw [hsame p hp]
  · rw [hsame p hp]
    exact h.homes p hp

/-- Taking a slot. -/
theorem Layout.hold (h : e.Layout arrival [] (o :: freeOrders) freeLevels rungs) :
    (e.setOrderPool { e.orderPool with head := freeOrders.head? }).Layout arrival [o] freeOrders
      freeLevels rungs := by
  have hfresh : o ∉ arrival := fun ho => h.orderPool.not_used (p := o) (by simp) (.inl ho)
  refine ⟨h.holds.congr (fun _ => rfl) rfl fun _ _ => rfl, ?_, by simpa using hfresh, ?_, h.index,
    h.homes⟩
  · exact h.orderPool.acquired.congr_used fun p => by simp
  · have hslots := h.orderSlots
    show freeOrders.length + arrival.length + [o].length = e.orderPool.capacity.toNat
    simp only [List.length_cons, List.length_nil] at hslots ⊢
    omega

/-- Constructing an order in a held slot. -/
theorem Layout.construct (h : e.Layout arrival [o] freeOrders freeLevels rungs) (order : Order) :
    (e.constructOrder o order).Layout arrival [o] freeOrders freeLevels rungs := by
  have hsame : ∀ p ∈ arrival, (e.constructOrder o order).orders p = e.orders p := fun p hp =>
    Function.update_of_ne (ne_of_mem_of_not_mem hp (h.apart o (by simp))) _ _
  refine ⟨h.holds.congr (fun _ => rfl) rfl hsame, ?_, h.apart, h.orderSlots, ?_, fun p hp => ?_⟩
  · refine h.orderPool.congr _ fun p hp => ?_
    have hpo : p ≠ o := fun he => hp (.inr (List.mem_singleton.mpr he))
    exact Function.update_of_ne hpo _ _
  · exact h.index.congr fun p hp => by rw [hsame p hp]
  · rw [hsame p hp]
    exact h.homes p hp

/-! ## Adding and removing orders -/

/-- What a book method leaves of the order pool. -/
theorem Layout.putBook_orderPool (h : e.Layout arrival held freeOrders freeLevels rungs)
    (hframe : ∀ q, ¬ (q ∈ arrival ∨ q ∈ held) → st.orders q = e.orders q) :
    (e.putBook locate st).orderPool.Represents freeOrders fun p => p ∈ arrival ∨ p ∈ held :=
  h.orderPool.congr _ hframe

/-- A method of one book that changes neither the orders of the book nor what they are. -/
theorem Layout.putBook_same (h : e.Layout arrival held freeOrders freeLevels rungs)
    (hbook : e.instruments.book locate = some b)
    (hupdate : (e.bookState b).Update st (fun q => ∃ l, OnRung (rungs l) q) freeLevels freeLevels'
      (atLocate (orderData e.orders) locate arrival) (atLocate (orderData e.orders) locate arrival)
      (rungs locate) rungs' data)
    (hid : ∀ p, (data p).orderId = (e.orders p).orderId)
    (hlocate : ∀ p, (data p).locate = (e.orders p).locate) :
    (e.putBook locate st).Layout arrival held freeOrders freeLevels'
      (Function.update rungs locate rungs') := by
  have hdata : ∀ p, (st.orders p).toOrderData = data p := fun p => congrFun hupdate.data_eq p
  have hat : ∀ l, atLocate data l arrival = atLocate (orderData e.orders) l arrival := fun l =>
    List.filter_congr fun p _ => by rw [hlocate]; rfl
  refine ⟨h.holds.putBook hbook hupdate (hat locate) fun l _ => hat l, ?_, h.apart, h.orderSlots,
    ?_, fun p hp => ?_⟩
  · refine h.putBook_orderPool fun q hq => hupdate.orders_frame q (fun hmem => hq ?_) fun hmem =>
      hq ?_ <;> exact .inl (List.mem_filter.mp hmem).1
  · refine h.index.congr fun p _ => ?_
    rw [← hid, ← hdata p]
    rfl
  · refine putBook_book_isSome _ ?_
    have hp' : ((e.putBook locate st).orders p).locate = (e.orders p).locate := by
      rw [← hlocate, ← hdata p]
      rfl
    rw [hp']
    exact h.homes p hp

/-- Removing an order: from its book, from the index and from the pool. -/
theorem Layout.takeOff (h : e.Layout arrival held freeOrders freeLevels rungs)
    (ho : o ∈ arrival) (hbook : e.instruments.book (e.orders o).locate = some b)
    (hupdate : (e.bookState b).Update st (fun q => ∃ l, OnRung (rungs l) q) freeLevels freeLevels'
      (atLocate (orderData e.orders) (e.orders o).locate arrival)
      ((atLocate (orderData e.orders) (e.orders o).locate arrival).filter fun p => p ≠ o)
      (rungs (e.orders o).locate) rungs' data)
    (hid : ∀ p, (data p).orderId = (e.orders p).orderId)
    (hlocate : ∀ p, (data p).locate = (e.orders p).locate) :
    (((e.putBook (e.orders o).locate st).eraseOrder (e.orders o).orderId).releaseOrder o).Layout
      (arrival.filter fun p => p ≠ o) held (o :: freeOrders) freeLevels'
      (Function.update rungs (e.orders o).locate rungs') := by
  have hdata : ∀ p, (st.orders p).toOrderData = data p := fun p => congrFun hupdate.data_eq p
  have hat : ∀ l, atLocate data l (arrival.filter fun p => p ≠ o) =
      (atLocate (orderData e.orders) l arrival).filter fun p => p ≠ o := by
    intro l
    unfold atLocate
    rw [List.filter_filter, List.filter_filter]
    exact List.filter_congr fun p _ => by rw [hlocate, Bool.and_comm]; rfl
  have hholds := h.holds.putBook hbook hupdate (hat _) fun l hl => by
    rw [hat]
    refine List.filter_eq_self.mpr fun p hp => ?_
    have hpl : (e.orders p).locate = l := of_decide_eq_true (List.mem_filter.mp hp).2
    simp only [decide_eq_true_eq]
    rintro rfl
    exact hl hpl.symm
  have hsame : ∀ p ∈ arrival.filter fun p => p ≠ o,
      (((e.putBook (e.orders o).locate st).eraseOrder
        (e.orders o).orderId).releaseOrder o).orders p = st.orders p := fun p hp =>
    Function.update_of_ne (by simpa using (List.mem_filter.mp hp).2) _ _
  have hids : ∀ p, (st.orders p).orderId = (e.orders p).orderId := fun p => by
    rw [← hid, ← hdata p]
  have hindex : (e.putBook (e.orders o).locate st).orderIndex.Represents st.orders arrival :=
    h.index.congr fun p _ => hids p
  have hpool : (e.putBook (e.orders o).locate st).orderPool.Represents freeOrders
      fun p => p ∈ arrival ∨ p ∈ held :=
    h.putBook_orderPool fun q hq => hupdate.orders_frame q
      (fun hmem => hq (.inl (List.mem_filter.mp hmem).1))
      fun hmem => hq (.inl (List.mem_filter.mp (List.mem_filter.mp hmem).1).1)
  refine ⟨hholds.congr (fun _ => rfl) rfl hsame, ?_, fun p hp hmem => ?_, ?_, ?_, fun p hp => ?_⟩
  · -- the slot of `o` is free again, and nothing else is
    refine (hpool.released (p := o) (.inl ho)).congr_used fun p => ?_
    have hheld : p ∈ held → p ≠ o := fun hp he => h.apart p hp (he ▸ ho)
    simp only [List.mem_filter, decide_eq_true_eq]
    tauto
  · exact h.apart p hp (List.mem_filter.mp hmem).1
  · have hlen := Intrusive.length_filter_ne h.nodup ho
    have hslots := h.orderSlots
    show (o :: freeOrders).length + (arrival.filter fun p => p ≠ o).length + held.length =
      e.orderPool.capacity.toNat
    rw [List.length_cons]
    omega
  · refine (hindex.erase ho (hids o)).congr fun p hp => ?_
    rw [hsame p hp]
  · rw [hsame p hp]
    refine putBook_book_isSome _ ?_
    rw [show (st.orders p).locate = (e.orders p).locate by rw [← hlocate, ← hdata p]]
    exact h.homes p (List.mem_filter.mp hp).1

/-- Adding a constructed order to its book and to the index. -/
theorem Layout.putOn (h : e.Layout arrival [o] freeOrders freeLevels rungs)
    (hbook : e.instruments.book (e.orders o).locate = some b)
    (hfresh : ∀ p ∈ arrival, (e.orders p).orderId ≠ (e.orders o).orderId)
    (hupdate : (e.bookState b).Update st (fun q => ∃ l, OnRung (rungs l) q) freeLevels freeLevels'
      (atLocate (orderData e.orders) (e.orders o).locate arrival)
      (atLocate (orderData e.orders) (e.orders o).locate arrival ++ [o])
      (rungs (e.orders o).locate) rungs' (orderData e.orders)) :
    ∃ index, e.orderIndex.insert st.orders (e.orders o).orderId o = (index, true) ∧
      { e.putBook (e.orders o).locate st with orderIndex := index }.Layout (arrival ++ [o]) []
        freeOrders freeLevels' (Function.update rungs (e.orders o).locate rungs') := by
  have hdata : ∀ p, (st.orders p).toOrderData = (e.orders p).toOrderData := fun p =>
    congrFun hupdate.data_eq p
  have hids : ∀ p, (st.orders p).orderId = (e.orders p).orderId := fun p =>
    congrArg OrderData.orderId (hdata p)
  have hat : ∀ l, atLocate (orderData e.orders) l (arrival ++ [o]) =
      atLocate (orderData e.orders) l arrival ++ if (e.orders o).locate = l then [o] else [] := by
    intro l
    unfold atLocate
    rw [List.filter_append, List.filter_singleton]
    by_cases hl : (e.orders o).locate = l <;> simp [orderData, hl]
  have hholds := h.holds.putBook hbook hupdate (by rw [hat, if_pos rfl]) fun l hl => by
    rw [hat, if_neg (Ne.symm hl), List.append_nil]
  have hindex : e.orderIndex.Represents st.orders arrival := h.index.congr fun p _ => hids p
  obtain ⟨hok, hinserted⟩ := hindex.insert (p := o) (hids o) fun q hq => by
    rw [hids]
    exact hfresh q hq
  refine ⟨_, Prod.ext rfl hok, hholds.congr (fun _ => rfl) rfl fun _ _ => rfl, ?_, by simp, ?_,
    hinserted, fun p hp => ?_⟩
  · have hpool : (e.putBook (e.orders o).locate st).orderPool.Represents freeOrders
        fun p => p ∈ arrival ∨ p ∈ [o] := by
      refine h.putBook_orderPool fun q hq => hupdate.orders_frame q
        (fun hmem => hq (.inl (List.mem_filter.mp hmem).1)) fun hmem => ?_
      rcases List.mem_append.mp hmem with hmem | hmem
      · exact hq (.inl (List.mem_filter.mp hmem).1)
      · exact hq (.inr hmem)
    exact hpool.congr_used fun p => by simp
  · have hslots := h.orderSlots
    show freeOrders.length + (arrival ++ [o]).length + [].length = e.orderPool.capacity.toNat
    simp only [List.length_append, List.length_cons, List.length_nil] at hslots ⊢
    omega
  · refine putBook_book_isSome _ ?_
    rw [show ((e.putBook (e.orders o).locate st).orders p).locate = (e.orders p).locate from
      congrArg OrderData.locate (hdata p)]
    rcases List.mem_append.mp hp with hp | hp
    · exact h.homes p hp
    · rw [List.mem_singleton.mp hp, hbook]
      rfl

end MatchingEngine
end ItchParser
