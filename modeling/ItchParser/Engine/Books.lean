import ItchParser.Market
import ItchParser.OrderBook.Update

/-!
# The books of the engine

All books share the two pools. `Holds` says that the book of every locate represents its share of
the resting orders, and that the level pool is used by these books and by nobody else. A method of
one book keeps it (`Holds.putBook`): the other books have other orders, hence other levels.
-/

namespace ItchParser

open Ladder OrderBook

namespace InstrumentMap

variable {m : InstrumentMap} {locate l : StockLocate} {b : OrderBook} {inst : Instrument}

/-- Writing a book back changes that book only. -/
theorem setBook_book (hslot : (m.slots locate).isSome) :
    (m.setBook locate b).book = Function.update m.book locate (some b) := by
  obtain ⟨inst, hinst⟩ := Option.isSome_iff_exists.mp hslot
  funext l
  unfold setBook book
  rw [hinst]
  by_cases hl : l = locate
  · simp [set, hl]
  · simp [set, hl]

/-- Writing a book creates no instrument. -/
theorem setBook_isSome :
    ((m.setBook locate b).slots l).isSome = (m.slots l).isSome := by
  unfold setBook
  cases hs : m.slots locate with
  | none => rfl
  | some inst =>
      by_cases hl : l = locate
      · simp [set, hl, hs]
      · simp [set, hl]

/-- A book belongs to an instrument. -/
theorem isSome_of_book (hbook : m.book locate = some b) : (m.slots locate).isSome := by
  unfold book at hbook
  cases hs : m.slots locate with
  | none => simp [hs] at hbook
  | some inst => rfl

end InstrumentMap

/-- The resting orders of one locate. -/
def atLocate (data : Ptr → OrderData) (locate : StockLocate) (resting : List Ptr) : List Ptr :=
  resting.filter fun p => (data p).locate = locate

namespace MatchingEngine

/-- The level memory. -/
abbrev levels (e : MatchingEngine) : Ptr → PriceLevel :=
  e.levelPool.storage

/-- The book of a locate; a missing one counts as empty. -/
def bookAt (e : MatchingEngine) (locate : StockLocate) : OrderBook :=
  (e.instruments.book locate).getD OrderBook.create

/-- The orders `resting` are on the books, and the level pool serves these books. -/
structure Holds (e : MatchingEngine) (resting free : List Ptr)
    (rungs : StockLocate → Side → List Rung) : Prop where
  books : ∀ locate, (e.bookAt locate).Represents e.orders e.levels
    (atLocate (orderData e.orders) locate resting) (rungs locate)
  levelPool : e.levelPool.Represents free fun q => ∃ locate, OnRung (rungs locate) q
  levelSlots : free.length + ∑ locate, levelTotal (rungs locate) = e.levelPool.capacity.toNat

variable {e e' : MatchingEngine} {resting resting' mine' free free' : List Ptr}
  {rungs : StockLocate → Side → List Rung} {rungs' : Side → List Rung} {locate l : StockLocate}
  {b : OrderBook} {st : BookState} {data : Ptr → OrderData} {o p q : Ptr}

@[simp] theorem count_orders (f : EngineStats → EngineStats) : (e.count f).orders = e.orders := rfl

@[simp] theorem count_findOrder (f : EngineStats → EngineStats) (id : OrderReferenceNumber) :
    (e.count f).findOrder id = e.findOrder id := rfl

@[simp] theorem count_instruments (f : EngineStats → EngineStats) :
    (e.count f).instruments = e.instruments := rfl

@[simp] theorem count_orderPool (f : EngineStats → EngineStats) :
    (e.count f).orderPool = e.orderPool := rfl

@[simp] theorem count_bookAt (f : EngineStats → EngineStats) :
    (e.count f).bookAt locate = e.bookAt locate := rfl

/-- The books depend on the books, the level pool and the memory of the resting orders. -/
theorem Holds.congr (h : e.Holds resting free rungs)
    (hbooks : ∀ l, e'.bookAt l = e.bookAt l) (hlevels : e'.levelPool = e.levelPool)
    (horders : ∀ p ∈ resting, e'.orders p = e.orders p) : e'.Holds resting free rungs := by
  refine ⟨fun l => ?_, by rw [hlevels]; exact h.levelPool, by rw [hlevels]; exact h.levelSlots⟩
  have hsame : atLocate (orderData e'.orders) l resting = atLocate (orderData e.orders) l resting :=
    List.filter_congr fun p hp => by rw [orderData, orderData, horders p hp]
  rw [hbooks, hsame]
  refine (h.books l).congr (fun _ _ _ => by rw [levels, levels, hlevels]) fun p hp => ?_
  exact horders p (List.mem_filter.mp hp).1

/-- No order rests at two locates. -/
theorem atLocate_apart {l l' : StockLocate} {xs ys : List Ptr} (hp : p ∈ atLocate data l xs)
    (hp' : p ∈ atLocate data l' ys) : l = l' := by
  have h₁ : (data p).locate = l := of_decide_eq_true (List.mem_filter.mp hp).2
  have h₂ : (data p).locate = l' := of_decide_eq_true (List.mem_filter.mp hp').2
  exact h₁.symm.trans h₂

/-- Books of different locates have no level in common. -/
theorem Holds.not_onRung (h : e.Holds resting free rungs) (hl : l ≠ locate)
    (hq : OnRung (rungs l) q) : ¬ OnRung (rungs locate) q := by
  rintro ⟨s', hq'⟩
  obtain ⟨s, hq⟩ := hq
  obtain ⟨g, hg, rfl⟩ := List.mem_map.mp hq
  obtain ⟨g', hg', he⟩ := List.mem_map.mp hq'
  exact (h.books l).level_ne (h.books locate) (fun p hp hp' => hl (atLocate_apart hp hp')) hg hg'
    he.symm

/-- Only the book that is written changes. -/
theorem putBook_bookAt (hbook : e.instruments.book locate = some b) :
    (e.putBook locate st).bookAt l = if l = locate then st.book else e.bookAt l := by
  unfold bookAt putBook
  rw [InstrumentMap.setBook_book (InstrumentMap.isSome_of_book hbook), Function.update_apply]
  split <;> rfl

/-- A method of the book of `locate` keeps all books. -/
theorem Holds.putBook (h : e.Holds resting free rungs) (hbook : e.instruments.book locate = some b)
    (hupdate : (e.bookState b).Update st (fun q => ∃ l, OnRung (rungs l) q) free free'
      (atLocate (orderData e.orders) locate resting) mine' (rungs locate) rungs' data)
    (hmine : atLocate data locate resting' = mine')
    (hothers : ∀ l, l ≠ locate →
      atLocate data l resting' = atLocate (orderData e.orders) l resting) :
    (e.putBook locate st).Holds resting' free' (Function.update rungs locate rungs') := by
  have hdata : orderData (e.putBook locate st).orders = data := hupdate.data_eq
  refine ⟨fun l => ?_, ?_, ?_⟩
  · rw [putBook_bookAt hbook, hdata]
    by_cases hl : l = locate
    · subst hl
      rw [if_pos rfl, hmine, Function.update_self]
      exact hupdate.represents
    · -- the other books read none of what the method wrote
      rw [if_neg hl, Function.update_of_ne hl, hothers l hl]
      refine (h.books l).congr (fun s g hg => ?_) fun p hp => ?_
      · exact hupdate.levels_frame _ ⟨l, onRung_of_mem hg⟩ (h.not_onRung hl (onRung_of_mem hg))
      · have hp' := hp
        rw [← hothers l hl] at hp'
        refine hupdate.orders_frame p (fun hmem => hl (atLocate_apart hp hmem)) fun hmem => hl ?_
        rw [← hmine] at hmem
        exact atLocate_apart hp' hmem
  · refine hupdate.pool.congr_used fun q => ?_
    constructor
    · rintro ⟨l, hq⟩
      by_cases hl : l = locate
      · subst hl
        rw [Function.update_self] at hq
        exact .inr hq
      · rw [Function.update_of_ne hl] at hq
        exact .inl ⟨⟨l, hq⟩, h.not_onRung hl hq⟩
    · rintro (⟨⟨l, hq⟩, hnot⟩ | hq)
      · have hl : l ≠ locate := fun he => hnot (he ▸ hq)
        exact ⟨l, by rwa [Function.update_of_ne hl]⟩
      · exact ⟨locate, by rwa [Function.update_self]⟩
  · -- only one summand has changed
    have hsum := sum_update_add (fun l => levelTotal (rungs l)) locate (levelTotal rungs')
    have hsame : ∀ l, Function.update (fun l => levelTotal (rungs l)) locate (levelTotal rungs') l =
        levelTotal (Function.update rungs locate rungs' l) := by
      intro l
      by_cases hl : l = locate
      · rw [hl, Function.update_self, Function.update_self]
      · rw [Function.update_of_ne hl, Function.update_of_ne hl]
    rw [Finset.sum_congr rfl fun l _ => hsame l] at hsum
    have hslots := h.levelSlots
    have hstep := hupdate.slots
    have hcap : (e.putBook locate st).levelPool.capacity = e.levelPool.capacity := hupdate.capacity
    rw [hcap]
    omega

/-! ## What the books look like from outside -/

/-- One side of one book as the orders of its levels, from the level list. -/
theorem Holds.book_eq (h : e.Holds resting free rungs) (locate : StockLocate) (s : Side) :
    rename (orderData e.orders) (priced e.levels (rungs locate s)) =
      bookOf (resting.map (orderData e.orders)) locate s := by
  have hfilter : restingOn (resting.map (orderData e.orders)) locate s =
      (onSide e.orders s (atLocate (orderData e.orders) locate resting)).map
        (orderData e.orders) := by
    rw [restingOn, List.filter_map, onSide, atLocate, List.filter_filter]
    congr 1
    refine List.filter_congr fun p _ => ?_
    show decide ((orderData e.orders p).locate = locate ∧ (orderData e.orders p).side = s) =
      (decide ((orderData e.orders p).side = s) && decide ((orderData e.orders p).locate = locate))
    rw [Bool.decide_and, Bool.and_comm]
  rw [bookOf, hfilter, ((h.books locate).sides s).grouping]
  exact (ladder_map fun p _ => rfl).symm

/-- A side has as many levels as the orders of its book call for. -/
theorem Holds.length_eq (h : e.Holds resting free rungs) (locate : StockLocate) (s : Side) :
    (rungs locate s).length = (bookOf (resting.map (orderData e.orders)) locate s).length := by
  rw [← h.book_eq]
  simp [rename, priced]

/-- A book has as many levels as its orders call for. -/
theorem Holds.levelTotal_eq (h : e.Holds resting free rungs) (locate : StockLocate) :
    levelTotal (rungs locate) = levelsAt (resting.map (orderData e.orders)) locate := by
  rw [levelTotal, levelsAt, h.length_eq, h.length_eq]

/-- Every level slot is free or a level of a book. -/
theorem Holds.levelCount_eq (h : e.Holds resting free rungs) :
    free.length + levelCount (resting.map (orderData e.orders)) = e.levelPool.capacity.toNat := by
  rw [← h.levelSlots, levelCount, Finset.sum_congr rfl fun l _ => h.levelTotal_eq l]

end MatchingEngine
end ItchParser
