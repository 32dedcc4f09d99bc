import ItchParser.Lib.Ladder
import ItchParser.OrderBook
import ItchParser.OrderBook.Queue

/-!
# What a book represents

A book stands for the sequence of its resting orders, in order of arrival. On each side the price
levels are the ladder of that sequence: one rung for each price, best price first, each rung with
its orders in order of arrival. Orders at the reserved price never share a rung.

`BookSide.Threads` is the pointer part: the level list, the queues, the counters and the level map
agree with a list of rungs. `BookSide.Represents` adds that the rungs are the right ones. The level
map is only described for a side that it has room for.
-/

namespace ItchParser

open Intrusive Ladder OrderBook BookState

/-- The slot of a price level and the slots of its orders, front first. -/
abbrev Rung := Ptr × List Ptr

/-- Higher bids and lower asks come first. An order at the reserved price gets its own level. -/
def pricePolicy (s : Side) : Policy Price where
  ahead := BookState.ahead s
  shared := fun px => px ≠ kEmptyPrice

/-- The better of two prices is ahead, on both sides. -/
theorem pricePolicy_lawful (s : Side) : (pricePolicy s).Lawful where
  irrefl a := by
    cases s <;> simp [pricePolicy, BookState.ahead]
  trans := by
    intro a b c hab hbc
    cases s <;> simp only [pricePolicy, BookState.ahead, decide_eq_true_eq] at hab hbc ⊢
    · exact UInt32.lt_trans hbc hab
    · exact UInt32.lt_trans hab hbc
  total a b := by
    have h : a < b ∨ a = b ∨ b < a := by
      simp only [UInt32.lt_iff_toNat_lt, ← UInt32.toNat_inj]
      omega
    cases s <;> simp only [pricePolicy, BookState.ahead, decide_eq_true_eq] <;> tauto

@[simp] theorem pricePolicy_shared {s : Side} {px : Price} :
    (pricePolicy s).shared px = true ↔ px ≠ kEmptyPrice := by
  simp [pricePolicy]

/-- The price key of the order memory. -/
abbrev priceOf (orders : Ptr → Order) (p : Ptr) : Price :=
  (orders p).priceCents

/-- The rungs with their prices. -/
def priced (levels : Ptr → PriceLevel) (rungs : List Rung) : List (Price × List Ptr) :=
  rungs.map fun g => ((levels g.1).priceCents, g.2)

/-- The finite map that the level map of a side should represent. -/
def levelAt (levels : Ptr → PriceLevel) (rungs : List Rung) (px : Price) : Option (Option Ptr) :=
  if px = kEmptyPrice then none
  else (rungs.find? fun g => (levels g.1).priceCents = px).map fun g => some g.1

/-- The pointers, counters and map of one side agree with the rungs. -/
structure BookSide.Threads (x : BookSide) (orders : Ptr → Order) (levels : Ptr → PriceLevel)
    (s : Side) (rungs : List Rung) : Prop where
  linked : Linked (fun p => (levels p).nextLevel) (fun p => (levels p).prevLevel)
    (rungs.map Prod.fst)
  best : x.best = (rungs.map Prod.fst).head?
  levelCount : x.levelCount = UInt64.ofNat rungs.length
  queues : ∀ g ∈ rungs, (levels g.1).Queues orders g.2
  side : ∀ g ∈ rungs, (levels g.1).side = s
  map : rungs.length ≤ kPriceLevelMapCapacity →
    x.map.Represents levelLayout (levelAt levels rungs)

/-- One side of a book stands for the orders `os`, in order of arrival. -/
structure BookSide.Represents (x : BookSide) (orders : Ptr → Order) (levels : Ptr → PriceLevel)
    (s : Side) (os : List Ptr) (rungs : List Rung) : Prop
    extends BookSide.Threads x orders levels s rungs where
  grouping : priced levels rungs = ladder (pricePolicy s) (fun p => (orders p).priceCents) os

/-- The orders of side `s` among `resting`. -/
def onSide (orders : Ptr → Order) (s : Side) (resting : List Ptr) : List Ptr :=
  resting.filter fun p => (orders p).side = s

/-- A book stands for the orders `resting`, in order of arrival. -/
structure OrderBook.Represents (b : OrderBook) (orders : Ptr → Order) (levels : Ptr → PriceLevel)
    (resting : List Ptr) (rungs : Side → List Rung) : Prop where
  nodup : resting.Nodup
  sides : ∀ s, (b.side s).Represents orders levels s (onSide orders s resting) (rungs s)
  liveOrderCount : b.liveOrderCount = UInt64.ofNat resting.length

variable {x : BookSide} {b : OrderBook} {orders orders' : Ptr → Order}
  {levels levels' : Ptr → PriceLevel} {s : Side} {os resting : List Ptr} {g g' : Rung}
  {o p q lvl : Ptr} {px : Price}

section Rungs

variable {rungs l r : List Rung}

/-- A rung is the one in the middle or one of the others. -/
theorem mem_rungs : g ∈ l ++ g' :: r ↔ g = g' ∨ g ∈ l ++ r :=
  List.perm_middle.mem_iff.trans List.mem_cons

/-- The map of the levels depends on their prices only. -/
theorem levelAt_congr (hprice : ∀ g ∈ rungs, (levels' g.1).priceCents = (levels g.1).priceCents) :
    levelAt levels' rungs = levelAt levels rungs := by
  funext px
  unfold levelAt
  have hfind : rungs.find? (fun g => (levels' g.1).priceCents = px) =
      rungs.find? fun g => (levels g.1).priceCents = px := by
    induction rungs with
    | nil => rfl
    | cons g rungs ih =>
        rw [List.find?_cons, List.find?_cons, hprice g (by simp),
          ih fun g hg => hprice g (by simp [hg])]
  rw [hfind]

/-- The prices of the rungs depend on the levels only. -/
theorem priced_congr (hprice : ∀ g ∈ rungs, (levels' g.1).priceCents = (levels g.1).priceCents) :
    priced levels' rungs = priced levels rungs :=
  List.map_congr_left fun g hg => by rw [hprice g hg]

/-- A side depends on the memory of its own levels and orders only. -/
theorem BookSide.Threads.congr (h : x.Threads orders levels s rungs)
    (hlevels : ∀ g ∈ rungs, levels' g.1 = levels g.1)
    (horders : ∀ g ∈ rungs, ∀ p ∈ g.2, orders' p = orders p) :
    x.Threads orders' levels' s rungs := by
  refine ⟨h.linked.congr fun p hp => ?_, h.best, h.levelCount, fun g hg => ?_, fun g hg => ?_,
    fun hfit => ?_⟩
  · obtain ⟨g, hg, rfl⟩ := List.mem_map.mp hp
    rw [hlevels g hg]
    exact ⟨rfl, rfl⟩
  · rw [hlevels g hg]
    exact (h.queues g hg).congr rfl rfl rfl rfl (horders g hg)
  · rw [hlevels g hg]
    exact h.side g hg
  · rw [levelAt_congr fun g hg => by rw [hlevels g hg]]
    exact h.map hfit

/-- The orders of a side depend on their sides only. -/
theorem onSide_congr (hside : ∀ p ∈ resting, (orders' p).side = (orders p).side) :
    onSide orders' s resting = onSide orders s resting :=
  List.filter_congr fun p hp => by rw [hside p hp]

/-! ## Rungs and resting orders -/

/-- A rung of a ladder comes with its price. -/
theorem BookSide.Represents.mem_ladder (h : x.Represents orders levels s os rungs)
    (hg : g ∈ rungs) :
    ((levels g.1).priceCents, g.2) ∈
      ladder (pricePolicy s) (fun p => (orders p).priceCents) os := by
  rw [← h.grouping]
  exact List.mem_map.mpr ⟨g, hg, rfl⟩

/-- No level is empty. -/
theorem BookSide.Represents.ne_nil (h : x.Represents orders levels s os rungs) (hg : g ∈ rungs) :
    g.2 ≠ [] :=
  (ladder_grouped os _ (h.mem_ladder hg)).1

/-- The orders of a level have its price. -/
theorem BookSide.Represents.price_eq (h : x.Represents orders levels s os rungs) (hg : g ∈ rungs)
    (hp : p ∈ g.2) : (orders p).priceCents = (levels g.1).priceCents :=
  (ladder_grouped os _ (h.mem_ladder hg)).2 p hp

/-- The orders of a level rest in the book. -/
theorem BookSide.Represents.mem_resting (h : x.Represents orders levels s os rungs)
    (hg : g ∈ rungs) (hp : p ∈ g.2) : p ∈ os :=
  mem_of_group (h.mem_ladder hg) hp

/-- The orders of the side, level by level. -/
theorem BookSide.Represents.orders_perm (h : x.Represents orders levels s os rungs) :
    (rungs.flatMap Prod.snd).Perm os := by
  have hperm := ladder_perm (pricePolicy s) (fun p => (orders p).priceCents) os
  rw [← h.grouping] at hperm
  rwa [priced, List.flatMap_map] at hperm

/-- Every resting order has a rung. -/
theorem BookSide.Represents.exists_rung (h : x.Represents orders levels s os rungs)
    (hp : p ∈ os) : ∃ g ∈ rungs, p ∈ g.2 := by
  have hmem := h.orders_perm.mem_iff.mpr hp
  simpa using hmem

/-- The levels are in price order, and only the reserved price repeats. -/
theorem BookSide.Represents.sorted (h : x.Represents orders levels s os rungs) :
    Sorted (pricePolicy s) (priced levels rungs) := by
  rw [h.grouping]
  exact ladder_sorted (pricePolicy_lawful s) os

/-- Two levels with the same price are at the reserved price or the same. -/
theorem BookSide.Represents.price_ne (h : x.Represents orders levels s os (l ++ g :: r))
    (hne : (levels g.1).priceCents ≠ kEmptyPrice) (hg' : g' ∈ l ++ r) :
    (levels g'.1).priceCents ≠ (levels g.1).priceCents := by
  have hsorted := h.sorted
  unfold Sorted priced at hsorted
  rw [List.pairwise_map, List.pairwise_append, List.pairwise_cons] at hsorted
  obtain ⟨_, ⟨hbehind, _⟩, hbefore⟩ := hsorted
  have hP := pricePolicy_lawful s
  have hshared : (pricePolicy s).shared (levels g.1).priceCents = true :=
    pricePolicy_shared.mpr hne
  rcases List.mem_append.mp hg' with hmem | hmem
  · rcases hbefore g' hmem g (by simp) with hlt | ⟨he, hun⟩
    · exact hP.ne hlt
    · rw [he] at hun
      cases hshared.symm.trans hun
  · rcases hbehind g' hmem with hlt | ⟨_, hun⟩
    · exact (hP.ne hlt).symm
    · cases hshared.symm.trans hun

end Rungs

/-! ## Whole books -/

variable {rungs : Side → List Rung}

/-- An order of a level of side `s` rests in the book on that side. -/
theorem OrderBook.Represents.mem_of_rung (h : b.Represents orders levels resting rungs)
    (hg : g ∈ rungs s) (hp : p ∈ g.2) : p ∈ resting ∧ (orders p).side = s := by
  have hmem := (h.sides s).mem_resting hg hp
  unfold onSide at hmem
  simpa using hmem

/-- Every resting order stands in a level of its own side. -/
theorem OrderBook.Represents.exists_rung (h : b.Represents orders levels resting rungs)
    (hp : p ∈ resting) : ∃ g ∈ rungs (orders p).side, p ∈ g.2 :=
  (h.sides _).exists_rung (List.mem_filter.mpr ⟨hp, by simp⟩)

/-- A book depends on the memory of its own levels and orders only. -/
theorem OrderBook.Represents.congr (h : b.Represents orders levels resting rungs)
    (hlevels : ∀ s, ∀ g ∈ rungs s, levels' g.1 = levels g.1)
    (horders : ∀ p ∈ resting, orders' p = orders p) :
    b.Represents orders' levels' resting rungs := by
  have hside : ∀ s, onSide orders' s resting = onSide orders s resting := fun s =>
    onSide_congr fun p hp => by rw [horders p hp]
  refine ⟨h.nodup, fun s => ⟨(h.sides s).toThreads.congr (hlevels s) fun g hg p hp =>
    horders p (h.mem_of_rung hg hp).1, ?_⟩, h.liveOrderCount⟩
  rw [hside, priced_congr fun g hg => by rw [hlevels s g hg], (h.sides s).grouping]
  refine (ladder_congr fun p hp => ?_).symm
  rw [horders p (List.mem_filter.mp hp).1]

/-- The two sides have different levels. -/
theorem OrderBook.Represents.side_ne (h : b.Represents orders levels resting rungs) {s s' : Side}
    (hs : s ≠ s') (hg : g ∈ rungs s) (hg' : g' ∈ rungs s') : g.1 ≠ g'.1 := by
  intro he
  apply hs
  rw [← (h.sides s).side g hg, he, (h.sides s').side g' hg']

/-- No level is on both sides. -/
theorem OrderBook.Represents.side_ne_slot (h : b.Represents orders levels resting rungs)
    {s s' : Side} (hs : s ≠ s') (hg : g ∈ rungs s) (hlvl : lvl ∈ (rungs s').map Prod.fst) :
    g.1 ≠ lvl := by
  obtain ⟨g', hg', rfl⟩ := List.mem_map.mp hlvl
  exact h.side_ne hs hg hg'

/-- Books without a common order have no common level: a level's first order tells them apart. -/
theorem OrderBook.Represents.level_ne (h : b.Represents orders levels resting rungs)
    {b' : OrderBook} {resting' : List Ptr} {rungs' : Side → List Rung}
    (h' : b'.Represents orders levels resting' rungs') (hdisjoint : resting.Disjoint resting')
    {s s' : Side} (hg : g ∈ rungs s) (hg' : g' ∈ rungs' s') : g.1 ≠ g'.1 := by
  intro he
  have hhead : g.2.head? = g'.2.head? := by
    rw [← ((h.sides s).queues g hg).head, he, ((h'.sides s').queues g' hg').head]
  cases hfirst : g.2.head? with
  | none => exact (h.sides s).ne_nil hg (List.head?_eq_none_iff.mp hfirst)
  | some p =>
      have hp : p ∈ g.2 := List.mem_of_mem_head? hfirst
      have hp' : p ∈ g'.2 := List.mem_of_mem_head? (hhead ▸ hfirst)
      exact hdisjoint (h.mem_of_rung hg hp).1 (h'.mem_of_rung hg' hp').1

/-- A new book is empty. -/
theorem OrderBook.create_represents (orders : Ptr → Order) (levels : Ptr → PriceLevel) :
    OrderBook.create.Represents orders levels [] fun _ => [] := by
  refine ⟨List.nodup_nil, fun s => ⟨⟨Linked.nil, rfl, rfl, by simp, by simp, fun _ => ?_⟩, rfl⟩,
    rfl⟩
  have hnone : levelAt levels [] = fun _ => none := by
    funext px
    simp [levelAt]
  rw [hnone]
  exact FlatHashMap.Represents.empty

/-- The search for a price finds its level, unless the price is the reserved one. -/
theorem OrderBook.Represents.findLevel_eq (h : b.Represents orders levels resting rungs)
    (hfit : (rungs s).length ≤ kPriceLevelMapCapacity) (px : Price) :
    b.findLevel s px = (levelAt levels (rungs s) px).join := by
  rw [findLevel, ((h.sides s).map hfit).find_eq]

end ItchParser
