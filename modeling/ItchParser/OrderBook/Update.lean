import ItchParser.OrderBook.Levels

/-!
# What a book method does

An `Update` collects what a caller has to know about a call of one of the methods of a book: which
orders rest in the book afterwards, that the level pool still holds the levels of this book and of
everybody else, and that foreign orders and levels were not touched. `setRung` and `setRungs` carry
the representation through a change of one level and of one side.
-/

namespace ItchParser

open Intrusive Ladder OrderBook PriceLevel

/-- The number of levels on both sides. -/
def levelTotal (rungs : Side → List Rung) : Nat :=
  (rungs .buy).length + (rungs .sell).length

/-- The number of levels after one side has changed. -/
theorem levelTotal_update (rungs : Side → List Rung) (s : Side) (rs : List Rung) :
    levelTotal (Function.update rungs s rs) + (rungs s).length = levelTotal rungs + rs.length := by
  cases s <;> simp [levelTotal, Function.update_of_ne] <;> omega

/-- The slot `q` is a level of the book. -/
def OnRung (rungs : Side → List Rung) (q : Ptr) : Prop :=
  ∃ s, q ∈ (rungs s).map Prod.fst

/-- What every order says. -/
def orderData (orders : Ptr → Order) (q : Ptr) : OrderData :=
  (orders q).toOrderData

/-- A method call took a book from the orders `resting` on `rungs` to `resting'` on `rungs'`, and
the orders say `data` afterwards. The levels in `used` that are not on a rung belong to other
books. -/
structure BookState.Update (st st' : BookState) (used : Ptr → Prop) (free free' : List Ptr)
    (resting resting' : List Ptr) (rungs rungs' : Side → List Rung) (data : Ptr → OrderData) :
    Prop where
  represents : st'.book.Represents st'.orders st'.levels resting' rungs'
  pool : st'.levelPool.Represents free' fun q =>
    (used q ∧ ¬ OnRung rungs q) ∨ OnRung rungs' q
  capacity : st'.levelPool.capacity = st.levelPool.capacity
  data_eq : orderData st'.orders = data
  slots : free'.length + levelTotal rungs' = free.length + levelTotal rungs
  orders_frame : ∀ q, q ∉ resting → q ∉ resting' → st'.orders q = st.orders q
  levels_frame : ∀ q, used q → ¬ OnRung rungs q → st'.levels q = st.levels q

section OnRung

variable {rungs : Side → List Rung} {s : Side} {rs : List Rung} {g : Rung} {q : Ptr}

/-- A level on a rung. -/
theorem onRung_of_mem (hg : g ∈ rungs s) : OnRung rungs g.1 :=
  ⟨s, List.mem_map_of_mem hg⟩

/-- A slot without a rung is no level. -/
theorem ne_of_not_onRung (hq : ¬ OnRung rungs q) (hg : g ∈ rungs s) : g.1 ≠ q :=
  fun he => hq (he ▸ onRung_of_mem hg)

/-- The levels after one side has changed. -/
theorem onRung_update :
    OnRung (Function.update rungs s rs) q ↔
      q ∈ rs.map Prod.fst ∨ ∃ s', s' ≠ s ∧ q ∈ (rungs s').map Prod.fst := by
  constructor
  · rintro ⟨s', hq⟩
    by_cases hs : s' = s
    · subst hs
      rw [Function.update_self] at hq
      exact .inl hq
    · rw [Function.update_of_ne hs] at hq
      exact .inr ⟨s', hs, hq⟩
  · rintro (hq | ⟨s', hs, hq⟩)
    · exact ⟨s, by rwa [Function.update_self]⟩
    · exact ⟨s', by rwa [Function.update_of_ne hs]⟩

/-- A slot is on a rung of side `s` or of the other side. -/
theorem onRung_iff (s : Side) :
    OnRung rungs q ↔
      q ∈ (rungs s).map Prod.fst ∨ ∃ s', s' ≠ s ∧ q ∈ (rungs s').map Prod.fst := by
  rw [← onRung_update, Function.update_eq_self]

variable {l r : List Rung} {lvl : Ptr} {os os' : List Ptr}

/-- The orders of a level may change, its slot stays. -/
theorem onRung_replace (hrungs : rungs s = l ++ (lvl, os) :: r) :
    OnRung (Function.update rungs s (l ++ (lvl, os') :: r)) q ↔ OnRung rungs q := by
  rw [onRung_update, onRung_iff s, hrungs]
  simp only [List.map_append, List.map_cons]

/-- An inserted level is the only new one. -/
theorem onRung_insert (hrungs : rungs s = l ++ r) :
    OnRung (Function.update rungs s (l ++ (lvl, os) :: r)) q ↔ OnRung rungs q ∨ q = lvl := by
  rw [onRung_update, onRung_iff s, hrungs]
  simp only [List.map_append, List.map_cons, List.mem_append, List.mem_cons, or_assoc, or_comm,
    or_left_comm]

/-- Changing a queue keeps the number of levels. -/
theorem levelTotal_replace (hrungs : rungs s = l ++ (lvl, os) :: r) :
    levelTotal (Function.update rungs s (l ++ (lvl, os') :: r)) = levelTotal rungs := by
  have htotal := levelTotal_update rungs s (l ++ (lvl, os') :: r)
  rw [hrungs] at htotal
  simp only [List.length_append, List.length_cons] at htotal
  omega

/-- A new rung is one more level. -/
theorem levelTotal_insert (hrungs : rungs s = l ++ r) :
    levelTotal (Function.update rungs s (l ++ (lvl, os) :: r)) = levelTotal rungs + 1 := by
  have htotal := levelTotal_update rungs s (l ++ (lvl, os) :: r)
  rw [hrungs] at htotal
  simp only [List.length_append, List.length_cons] at htotal
  omega

/-- A rung that goes is one level less. -/
theorem levelTotal_remove (hrungs : rungs s = l ++ (lvl, os) :: r) :
    levelTotal (Function.update rungs s (l ++ r)) + 1 = levelTotal rungs := by
  have htotal := levelTotal_update rungs s (l ++ r)
  rw [hrungs] at htotal
  simp only [List.length_append, List.length_cons] at htotal
  omega

end OnRung

section Rung

variable {x : BookSide} {orders orders' : Ptr → Order} {levels : Ptr → PriceLevel} {s : Side}
  {l r : List Rung} {lvl o : Ptr} {os os' : List Ptr} {level : PriceLevel}

/-- Rewriting one level and its orders, with the level's price and links kept. -/
theorem BookSide.Threads.setRung (h : x.Threads orders levels s (l ++ (lvl, os) :: r))
    (hqueue : level.Queues orders' os') (hprice : level.priceCents = (levels lvl).priceCents)
    (hside : level.side = (levels lvl).side) (hnext : level.nextLevel = (levels lvl).nextLevel)
    (hprev : level.prevLevel = (levels lvl).prevLevel)
    (hrest : ∀ g ∈ l ++ r, g.1 ≠ lvl ∧ ∀ p ∈ g.2, orders' p = orders p) :
    x.Threads orders' (Function.update levels lvl level) s (l ++ (lvl, os') :: r) := by
  have hslots : (l ++ (lvl, os') :: r).map Prod.fst = (l ++ (lvl, os) :: r).map Prod.fst := by
    simp
  have hprices : ∀ q, (Function.update levels lvl level q).priceCents = (levels q).priceCents := by
    intro q
    by_cases hq : q = lvl
    · rw [hq, Function.update_self, hprice]
    · rw [Function.update_of_ne hq]
  -- the map goes by the prices, and these stay
  have hat : levelAt (Function.update levels lvl level) (l ++ (lvl, os') :: r) =
      levelAt levels (l ++ (lvl, os) :: r) := by
    rw [levelAt_congr fun g _ => hprices g.1]
    funext px
    unfold levelAt
    simp only [List.find?_append, List.find?_cons]
    split
    · rfl
    · cases l.find? _ <;> simp only [Option.none_or, Option.some_or]
      by_cases hpx : (levels lvl).priceCents = px <;> simp [hpx]
  refine ⟨?_, ?_, ?_, fun g hg => ?_, fun g hg => ?_, fun hfit => ?_⟩
  · rw [hslots]
    refine h.linked.congr fun p _ => ?_
    by_cases hp : p = lvl
    · rw [hp, Function.update_self]
      exact ⟨hnext, hprev⟩
    · rw [Function.update_of_ne hp]
      exact ⟨rfl, rfl⟩
  · rw [hslots]
    exact h.best
  · rw [h.levelCount]
    simp
  · rcases mem_rungs.mp hg with rfl | hg
    · rw [Function.update_self]
      exact hqueue
    · obtain ⟨hne, hsame⟩ := hrest g hg
      rw [Function.update_of_ne hne]
      exact (h.queues g (mem_rungs.mpr (.inr hg))).congr rfl rfl rfl rfl hsame
  · rcases mem_rungs.mp hg with rfl | hg
    · rw [Function.update_self, hside]
      exact h.side (lvl, os) (by simp)
    · rw [Function.update_of_ne (hrest g hg).1]
      exact h.side g (mem_rungs.mpr (.inr hg))
  · rw [hat]
    exact h.map (by simpa using hfit)

end Rung

/-! ## Changing one side of a book -/

section Book

variable {b b' : OrderBook} {orders orders' : Ptr → Order} {levels levels' : Ptr → PriceLevel}
  {s : Side} {resting resting' : List Ptr} {rungs : Side → List Rung} {rs l r : List Rung}
  {g : Rung} {o lvl : Ptr} {os : List Ptr}

/-- The rungs next to one level have other slots and other orders. -/
theorem OrderBook.Represents.apart (h : b.Represents orders levels resting rungs)
    (hg : rungs s = l ++ (lvl, os) :: r) :
    ∀ g ∈ l ++ r, g.1 ≠ lvl ∧ ∀ p ∈ g.2, p ∉ os := by
  have hside := h.sides s
  rw [hg] at hside
  have hslots := hside.linked.nodup
  rw [List.map_append, List.map_cons, List.perm_middle.nodup_iff, List.nodup_cons,
    ← List.map_append] at hslots
  have horders : (((l ++ (lvl, os) :: r)).flatMap Prod.snd).Nodup :=
    hside.orders_perm.nodup_iff.mpr (h.nodup.filter _)
  have hmiddle : ((lvl, os) :: (l ++ r)).flatMap Prod.snd |>.Nodup :=
    (List.perm_middle.flatMap_right Prod.snd).nodup_iff.mp horders
  rw [List.flatMap_cons] at hmiddle
  intro g hmem
  refine ⟨fun he => hslots.1 (List.mem_map.mpr ⟨g, hmem, he⟩), fun p hp hos => ?_⟩
  exact (List.nodup_append.mp hmiddle).2.2 p hos p (List.mem_flatMap.mpr ⟨g, hmem, hp⟩) rfl

/-- A removed level is the only one that goes. -/
theorem OrderBook.Represents.onRung_remove (h : b.Represents orders levels resting rungs)
    (hrungs : rungs s = l ++ (lvl, os) :: r) {q : Ptr} :
    OnRung (Function.update rungs s (l ++ r)) q ↔ OnRung rungs q ∧ q ≠ lvl := by
  have hother : ∀ s', s' ≠ s → q ∈ (rungs s').map Prod.fst → q ≠ lvl := by
    rintro s' hs hq rfl
    obtain ⟨g, hg, he⟩ := List.mem_map.mp hq
    exact h.side_ne_slot hs hg (hrungs ▸ by simp) he
  have hsame : q ∈ (l ++ r).map Prod.fst → q ≠ lvl := by
    intro hq he
    obtain ⟨g, hg, hslot⟩ := List.mem_map.mp hq
    exact (h.apart hrungs g hg).1 (hslot.trans he)
  rw [onRung_update, onRung_iff s, hrungs]
  simp only [List.map_append, List.map_cons, List.mem_append, List.mem_cons] at hsame ⊢
  constructor
  · rintro (hq | ⟨s', hs, hq⟩)
    · exact ⟨by tauto, hsame hq⟩
    · exact ⟨.inr ⟨s', hs, hq⟩, hother s' hs hq⟩
  · rintro ⟨hq | hq, hne⟩
    · exact .inl (by tauto)
    · exact .inr hq

/-- The level pool after one level of the book was rewritten. -/
theorem MemoryPool.Represents.rewrite {pool : MemoryPool PriceLevel} {free : List Ptr}
    {used : Ptr → Prop} {level : PriceLevel} {rungs' : Side → List Rung}
    (hpool : pool.Represents free used) (hused : ∀ q, OnRung rungs q → used q)
    (hlvl : OnRung rungs lvl) (hsame : ∀ q, OnRung rungs' q ↔ OnRung rungs q) :
    { pool with storage := Function.update pool.storage lvl level }.Represents free fun q =>
      (used q ∧ ¬ OnRung rungs q) ∨ OnRung rungs' q := by
  refine (hpool.congr _ fun p hp => ?_).congr_used fun q => ?_
  · have hne : p ≠ lvl := fun he => hp (hused p (he ▸ hlvl))
    exact Function.update_of_ne hne _ _
  · have := hused q
    rw [hsame]
    tauto

/-- A change of side `s` that leaves the other side's memory alone. -/
theorem OrderBook.Represents.setRungs (h : b.Represents orders levels resting rungs)
    (hthreads : (b'.side s).Threads orders' levels' s rs)
    (hgrouping : priced levels' rs =
      ladder (pricePolicy s) (fun p => (orders' p).priceCents) (onSide orders' s resting'))
    (hsides : ∀ s', s' ≠ s → b'.side s' = b.side s')
    (hresting : ∀ s', s' ≠ s → onSide orders' s' resting' = onSide orders s' resting)
    (hlevels : ∀ s', s' ≠ s → ∀ g ∈ rungs s', levels' g.1 = levels g.1)
    (horders : ∀ p ∈ resting, (orders p).side ≠ s → orders' p = orders p)
    (hnodup : resting'.Nodup) (hcount : b'.liveOrderCount = UInt64.ofNat resting'.length) :
    b'.Represents orders' levels' resting' (Function.update rungs s rs) := by
  refine ⟨hnodup, fun s' => ?_, hcount⟩
  by_cases hs : s' = s
  · subst hs
    rw [Function.update_self]
    exact ⟨hthreads, hgrouping⟩
  · rw [Function.update_of_ne hs, hsides s' hs]
    have hsame : ∀ p ∈ onSide orders s' resting, orders' p = orders p := by
      intro p hp
      obtain ⟨hmem, hps⟩ := List.mem_filter.mp hp
      exact horders p hmem (by simp only [decide_eq_true_eq] at hps; rwa [hps])
    refine ⟨(h.sides s').toThreads.congr (hlevels s' hs) fun g hg p hp =>
      hsame p ((h.sides s').mem_resting hg hp), ?_⟩
    rw [hresting s' hs, priced_congr fun g hg => by rw [hlevels s' hs g hg], (h.sides s').grouping]
    exact (ladder_congr fun p hp => by rw [hsame p hp]).symm

/-- Only the prices and the sides of the orders matter for the grouping. -/
theorem ladder_onSide_congr (hprice : ∀ p, (orders' p).priceCents = (orders p).priceCents)
    (hside : ∀ p, (orders' p).side = (orders p).side) :
    ladder (pricePolicy s) (fun p => (orders' p).priceCents) (onSide orders' s resting) =
      ladder (pricePolicy s) (fun p => (orders p).priceCents) (onSide orders s resting) := by
  rw [onSide_congr fun p _ => hside p, ladder_congr fun p _ => hprice p]

end Book

end ItchParser
