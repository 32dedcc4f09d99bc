import ItchParser.OrderBook.Represents

/-!
# Opening and retiring price levels

What the level list and the level map do to the rungs of one side. `insertLevelSorted` and
`insertLevelIntoMap` together add a rung with an empty queue, `retireLevel` takes an empty rung
away and releases its slot. Both leave the orders alone, and on the levels of other books and of the
other side they do nothing.
-/

namespace ItchParser

open Intrusive Ladder OrderBook

/-! ## Projections -/

namespace OrderBook

variable {b : OrderBook} {s s' : Side} {x : BookSide}

@[simp] theorem setSide_side : (b.setSide s x).side s = x := by
  simp [setSide]

/-- Writing one side leaves the other alone. -/
theorem setSide_other (hs : s' ≠ s) : (b.setSide s x).side s' = b.side s' := by
  simp [setSide, Function.update_of_ne hs]

@[simp] theorem setSide_liveOrderCount : (b.setSide s x).liveOrderCount = b.liveOrderCount := rfl

end OrderBook

namespace BookState

variable {st : BookState} {levels : Ptr → PriceLevel}

@[simp] theorem setLevels_levels : (st.setLevels levels).levels = levels := rfl

@[simp] theorem setLevels_book : (st.setLevels levels).book = st.book := rfl

@[simp] theorem setLevels_orders : (st.setLevels levels).orders = st.orders := rfl

@[simp] theorem setLevels_levelPool :
    (st.setLevels levels).levelPool = { st.levelPool with storage := levels } := rfl

@[simp] theorem insertLevelIntoMap_levels (s : Side) (lvl : Ptr) :
    (st.insertLevelIntoMap s lvl).levels = st.levels := rfl

@[simp] theorem eraseLevelFromMap_levels (s : Side) (lvl : Ptr) :
    (st.eraseLevelFromMap s lvl).levels = st.levels := rfl

@[simp] theorem insertLevelIntoMap_orders (s : Side) (lvl : Ptr) :
    (st.insertLevelIntoMap s lvl).orders = st.orders := rfl

@[simp] theorem eraseLevelFromMap_orders (s : Side) (lvl : Ptr) :
    (st.eraseLevelFromMap s lvl).orders = st.orders := rfl

@[simp] theorem insertLevelIntoMap_levelPool (s : Side) (lvl : Ptr) :
    (st.insertLevelIntoMap s lvl).levelPool = st.levelPool := rfl

@[simp] theorem eraseLevelFromMap_levelPool (s : Side) (lvl : Ptr) :
    (st.eraseLevelFromMap s lvl).levelPool = st.levelPool := rfl

/-- The map of the other side is left alone. -/
theorem insertLevelIntoMap_other {s s' : Side} (lvl : Ptr) (hs : s' ≠ s) :
    (st.insertLevelIntoMap s lvl).book.side s' = st.book.side s' :=
  setSide_other hs

/-- The map of the other side is left alone. -/
theorem eraseLevelFromMap_other {s s' : Side} (lvl : Ptr) (hs : s' ≠ s) :
    (st.eraseLevelFromMap s lvl).book.side s' = st.book.side s' :=
  setSide_other hs

@[simp] theorem insertLevelIntoMap_liveOrderCount (s : Side) (lvl : Ptr) :
    (st.insertLevelIntoMap s lvl).book.liveOrderCount = st.book.liveOrderCount := rfl

@[simp] theorem eraseLevelFromMap_liveOrderCount (s : Side) (lvl : Ptr) :
    (st.eraseLevelFromMap s lvl).book.liveOrderCount = st.book.liveOrderCount := rfl

end BookState

/-! ## The map of a side -/

section LevelAt

variable {levels : Ptr → PriceLevel} {rungs l r : List Rung} {g : Rung} {px : Price}

/-- The prices without a level in the map. -/
theorem levelAt_eq_none_iff :
    levelAt levels rungs px = none ↔
      px = kEmptyPrice ∨ ∀ g ∈ rungs, (levels g.1).priceCents ≠ px := by
  unfold levelAt
  split
  · next h => simp [h]
  · next h => simp [h]

/-- The level of a price in the map. -/
theorem levelAt_eq_some (hpx : px ≠ kEmptyPrice) (hg : (levels g.1).priceCents = px)
    (hl : ∀ a ∈ l, (levels a.1).priceCents ≠ px) :
    levelAt levels (l ++ g :: r) px = some (some g.1) := by
  unfold levelAt
  have hnone : l.find? (fun g => (levels g.1).priceCents = px) = none := by simpa using hl
  rw [if_neg hpx, List.find?_append, hnone, Option.none_or, List.find?_cons_of_pos (by simp [hg]),
    Option.map_some]

/-- Adding a rung adds its price, unless that is the reserved one. -/
theorem levelAt_insert (hl : ∀ a ∈ l, (levels a.1).priceCents ≠ (levels g.1).priceCents ∨
      (levels g.1).priceCents = kEmptyPrice) :
    levelAt levels (l ++ g :: r) =
      if (levels g.1).priceCents = kEmptyPrice then levelAt levels (l ++ r)
      else Function.update (levelAt levels (l ++ r)) (levels g.1).priceCents (some (some g.1)) := by
  funext px
  split
  · next hempty =>
      unfold levelAt
      split
      · rfl
      · next hpx =>
          have hne : ¬ (levels g.1).priceCents = px := fun he => hpx (he ▸ hempty)
          rw [List.find?_append, List.find?_append, List.find?_cons_of_neg (by simpa using hne)]
  · next hempty =>
      rw [Function.update_apply]
      split
      · next he =>
          subst he
          exact levelAt_eq_some hempty rfl fun a ha => (hl a ha).resolve_right hempty
      · next hne =>
          unfold levelAt
          rw [List.find?_append, List.find?_append,
            List.find?_cons_of_neg (by simpa using Ne.symm hne)]

/-- Taking a rung away removes its price, when no other rung has it. -/
theorem levelAt_remove (hother : ∀ a ∈ l ++ r, (levels a.1).priceCents ≠ (levels g.1).priceCents)
    (hpx : (levels g.1).priceCents ≠ kEmptyPrice) :
    levelAt levels (l ++ r) =
      Function.update (levelAt levels (l ++ g :: r)) (levels g.1).priceCents none := by
  rw [levelAt_insert fun a ha => .inl (hother a (by simp [ha])), if_neg hpx,
    Function.update_idem]
  have hnone : levelAt levels (l ++ r) (levels g.1).priceCents = none :=
    levelAt_eq_none_iff.mpr (.inr hother)
  rw [← hnone, Function.update_eq_self]

end LevelAt

/-- The search for the price of a rung finds its level. -/
theorem OrderBook.Represents.findLevel_eq_some {b : OrderBook} {orders : Ptr → Order}
    {levels : Ptr → PriceLevel} {resting os : List Ptr} {rungs : Side → List Rung} {s : Side}
    {l r : List Rung} {lvl : Ptr} (h : b.Represents orders levels resting rungs)
    (hfit : ∀ s, (rungs s).length ≤ kPriceLevelMapCapacity) (hrungs : rungs s = l ++ (lvl, os) :: r)
    (hpx : (levels lvl).priceCents ≠ kEmptyPrice) :
    b.findLevel s (levels lvl).priceCents = some lvl := by
  have hside := h.sides s
  rw [hrungs] at hside
  rw [h.findLevel_eq (hfit s), hrungs, levelAt_eq_some hpx rfl fun a ha =>
    hside.price_ne hpx (by simp [ha])]
  rfl

namespace BookState

variable {st : BookState} {s : Side} {lvl p q : Ptr} {b n : Option Ptr} {l r : List Rung}
  {os : List Ptr}

/-- What a change of the level list and the level map of side `s` leaves alone: `slots` are the
levels that it may relink. -/
structure Relinked (st st' : BookState) (s : Side) (slots : List Ptr) : Prop where
  orders : st'.orders = st.orders
  liveOrderCount : st'.book.liveOrderCount = st.book.liveOrderCount
  sides : ∀ s', s' ≠ s → st'.book.side s' = st.book.side s'
  price : ∀ q, (st'.levels q).priceCents = (st.levels q).priceCents
  frame : ∀ q, q ∉ slots → st'.levels q = st.levels q
  levelPool : st'.levelPool = { st.levelPool with storage := st'.levels }

/-! ## Opening a level -/

/-- The scan stops between the levels that stay ahead of the price and the others. -/
theorem scanLevels_eq {levels : Ptr → PriceLevel} {px : Price} (xs ys : List Ptr)
    {cur prev : Option Ptr} {fuel : Nat}
    (hchain : Chain (fun p => (levels p).nextLevel) cur (xs ++ ys))
    (hxs : ∀ p ∈ xs, ahead s (levels p).priceCents px = true)
    (hys : ∀ p ∈ ys, ahead s (levels p).priceCents px = false) (hfuel : xs.length ≤ fuel) :
    scanLevels levels s px fuel prev cur = (xs.getLast?.or prev, ys.head?) := by
  induction xs generalizing cur prev fuel with
  | nil =>
      rw [hchain.cursor_eq]
      cases fuel with
      | zero => rfl
      | succ fuel =>
          cases ys with
          | nil => rfl
          | cons y ys => simp [scanLevels, hys y (by simp)]
  | cons x xs ih =>
      obtain ⟨rfl, hrest⟩ := hchain
      cases fuel with
      | zero => simp at hfuel
      | succ fuel =>
          rw [scanLevels, if_pos (hxs x (by simp)), ih hrest (fun p hp => hxs p (by simp [hp]))
            (by simpa using hfuel), List.getLast?_cons]
          cases xs.getLast? <;> rfl

/-- Inserting a level relinks the two levels around it. -/
theorem insertLevelSorted_levels
    (hscan : scanLevels st.levels s (st.levels lvl).priceCents maxNodes none
      (st.book.side s).best = (b, n)) (hb : b ≠ some lvl) (hn : n ≠ some lvl) (q : Ptr) :
    (st.insertLevelSorted s lvl).levels q =
      if q = lvl then { st.levels lvl with prevLevel := b, nextLevel := n }
      else { st.levels q with
        nextLevel := if b = some q then some lvl else (st.levels q).nextLevel
        prevLevel := if n = some q then some lvl else (st.levels q).prevLevel } := by
  unfold insertLevelSorted
  simp only [hscan]
  by_cases hq : q = lvl
  · subst hq
    have hb' : ∀ x, b = some x → q ≠ x := fun x hx he => hb (he ▸ hx)
    have hn' : ∀ x, n = some x → q ≠ x := fun x hx he => hn (he ▸ hx)
    cases b <;> cases n <;> simp_all [modify_apply]
  · cases b <;> cases n <;>
      simp only [setLevels_levels, modify_apply, hq, ↓reduceIte, Option.some.injEq, reduceCtorEq,
        eq_comm (a := q)] <;> (repeat' split) <;> simp_all

/-- Linking a level changes no price. -/
theorem insertLevelSorted_price (q : Ptr) :
    ((st.insertLevelSorted s lvl).levels q).priceCents = (st.levels q).priceCents := by
  obtain ⟨⟨b, n⟩, hscan⟩ : ∃ bn, scanLevels st.levels s (st.levels lvl).priceCents maxNodes none
    (st.book.side s).best = bn := ⟨_, rfl⟩
  unfold insertLevelSorted
  simp only [hscan]
  cases b <;> cases n <;> simp only [setLevels_levels, modify_apply] <;> (repeat' split) <;> rfl

@[simp] theorem insertLevelSorted_orders : (st.insertLevelSorted s lvl).orders = st.orders := rfl

@[simp] theorem insertLevelSorted_levelPool :
    (st.insertLevelSorted s lvl).levelPool =
      { st.levelPool with storage := (st.insertLevelSorted s lvl).levels } := rfl

/-- A level without one ahead of it is the best one. -/
theorem insertLevelSorted_book
    (hscan : scanLevels st.levels s (st.levels lvl).priceCents maxNodes none
      (st.book.side s).best = (b, n)) :
    (st.insertLevelSorted s lvl).book =
      st.book.setSide s { st.book.side s with
        best := if b = none then some lvl else (st.book.side s).best } := by
  unfold insertLevelSorted
  simp only [hscan]
  cases b <;> cases n <;> simp

/-- The nodes next to the place where a level goes, or where it stands. -/
theorem neighbour_ne (hfresh : ∀ g ∈ l ++ r, g.1 ≠ lvl) :
    (l.map Prod.fst).getLast? ≠ some lvl ∧ (r.map Prod.fst).head? ≠ some lvl := by
  constructor
  · intro he
    obtain ⟨g, hg, hlvl⟩ := List.mem_map.mp (List.mem_of_getLast? he)
    exact hfresh g (by simp [hg]) hlvl
  · intro he
    obtain ⟨g, hg, hlvl⟩ := List.mem_map.mp (List.mem_of_mem_head? he)
    exact hfresh g (by simp [hg]) hlvl

/-- Between which levels the scan stops. -/
theorem scan_between {px : Price} (h : (st.book.side s).Threads st.orders st.levels s (l ++ r))
    (hl : ∀ g ∈ l, ahead s (st.levels g.1).priceCents px = true)
    (hr : ∀ g ∈ r, ahead s (st.levels g.1).priceCents px = false) :
    scanLevels st.levels s px maxNodes none (st.book.side s).best =
      ((l.map Prod.fst).getLast?, (r.map Prod.fst).head?) := by
  have hlinked := h.linked
  rw [List.map_append] at hlinked
  rw [scanLevels_eq (l.map Prod.fst) (r.map Prod.fst) ?_ ?_ ?_ ?_, Option.or_none]
  · rw [h.best, List.map_append]
    exact hlinked.forward.chain
  · simpa using hl
  · simpa using hr
  · exact length_le_maxNodes (List.nodup_append.mp hlinked.nodup).1

/-- The side of the book after a level is opened. -/
theorem insertLevel_side
    (hscan : scanLevels st.levels s (st.levels lvl).priceCents maxNodes none
      (st.book.side s).best = (b, n)) :
    ((st.insertLevelSorted s lvl).insertLevelIntoMap s lvl).book.side s =
      { st.book.side s with
        best := if b = none then some lvl else (st.book.side s).best
        map := ((st.book.side s).map.insert levelLayout (st.levels lvl).priceCents (some lvl)).1
        levelCount := (st.book.side s).levelCount + 1 } := by
  have hprice : ((st.insertLevelSorted s lvl).levels lvl).priceCents = (st.levels lvl).priceCents :=
    insertLevelSorted_price lvl
  simp only [insertLevelIntoMap, setSide_side, hprice, insertLevelSorted_book hscan]

/-- The level stands between its neighbours in the level list. -/
theorem linked_insertLevel
    (hlinked : Linked (fun p => (st.levels p).nextLevel) (fun p => (st.levels p).prevLevel)
      (l.map Prod.fst ++ r.map Prod.fst))
    (hscan : scanLevels st.levels s (st.levels lvl).priceCents maxNodes none
      (st.book.side s).best = ((l.map Prod.fst).getLast?, (r.map Prod.fst).head?))
    (hfresh : ∀ g ∈ l ++ r, g.1 ≠ lvl) :
    Linked (fun p => ((st.insertLevelSorted s lvl).levels p).nextLevel)
      (fun p => ((st.insertLevelSorted s lvl).levels p).prevLevel)
      (l.map Prod.fst ++ lvl :: r.map Prod.fst) := by
  obtain ⟨hb, hn⟩ := neighbour_ne hfresh
  have hlevels := insertLevelSorted_levels hscan hb hn
  have hother : ∀ p ∈ l.map Prod.fst ++ r.map Prod.fst, p ≠ lvl := by
    intro p hp
    rw [← List.map_append] at hp
    obtain ⟨g, hg, rfl⟩ := List.mem_map.mp hp
    exact hfresh g hg
  refine hlinked.insert (fun hmem => hother lvl hmem rfl) ?_ ?_ (fun y hy => ?_) fun y hy => ?_
  · simp [hlevels]
  · simp [hlevels]
  · simp [hlevels, hother y hy]
  · simp [hlevels, hother y hy]

/-- Linking a level touches the links only. -/
theorem insertLevelSorted_content
    (hscan : scanLevels st.levels s (st.levels lvl).priceCents maxNodes none
      (st.book.side s).best = (b, n)) (hb : b ≠ some lvl) (hn : n ≠ some lvl) (q : Ptr) :
    ∃ prev next, (st.insertLevelSorted s lvl).levels q =
      { st.levels q with prevLevel := prev, nextLevel := next } := by
  rw [insertLevelSorted_levels hscan hb hn]
  split
  · next hq => exact ⟨b, n, by rw [hq]⟩
  · exact ⟨_, _, rfl⟩

/-- The level map has the new price as well, unless that is the reserved one. -/
theorem map_insertLevel {levels : Ptr → PriceLevel} {map : FlatHashMap Price Ptr}
    (hmap : map.Represents levelLayout (levelAt levels (l ++ r)))
    (hlen : (l ++ r).length < kPriceLevelMapCapacity)
    (hnew : (levels lvl).priceCents ≠ kEmptyPrice →
      ∀ g ∈ l ++ r, (levels g.1).priceCents ≠ (levels lvl).priceCents) :
    (map.insert levelLayout (levels lvl).priceCents (some lvl)).1.Represents levelLayout
      (levelAt levels (l ++ (lvl, []) :: r)) := by
  have hfirst : ∀ a ∈ l, (levels a.1).priceCents ≠ (levels lvl).priceCents ∨
      (levels lvl).priceCents = kEmptyPrice := by
    intro a ha
    by_cases hempty : (levels lvl).priceCents = kEmptyPrice
    · exact .inr hempty
    · exact .inl (hnew hempty a (by simp [ha]))
  rw [levelAt_insert hfirst]
  split
  · -- `FlatHashMap::insert` turns the reserved price away
    next hempty =>
      rw [show (levels lvl).priceCents = levelLayout.kEmpty from hempty]
      exact hmap.insert_reserved
  · next hempty =>
      refine (hmap.insert_new hempty (levelAt_eq_none_iff.mpr (.inr (hnew hempty))) ?_).2.2
      -- the map has one key for each level, so a slot is left
      refine hmap.room ((l ++ r).map fun g => (levels g.1).priceCents) (fun k v hk => ?_)
        (by simpa [levelLayout] using hlen)
      by_contra hnot
      rw [levelAt_eq_none_iff.mpr (.inr fun g hg he => hnot (List.mem_map.mpr ⟨g, hg, he⟩))] at hk
      cases hk

/-- Opening an empty level between the levels ahead of its price and the others. -/
theorem threads_insertLevel (h : (st.book.side s).Threads st.orders st.levels s (l ++ r))
    (hfresh : ∀ g ∈ l ++ r, g.1 ≠ lvl) (hqueue : (st.levels lvl).Queues st.orders [])
    (hside : (st.levels lvl).side = s)
    (hl : ∀ g ∈ l, ahead s (st.levels g.1).priceCents (st.levels lvl).priceCents = true)
    (hr : ∀ g ∈ r, ahead s (st.levels g.1).priceCents (st.levels lvl).priceCents = false)
    (hnew : (st.levels lvl).priceCents ≠ kEmptyPrice →
      ∀ g ∈ l ++ r, (st.levels g.1).priceCents ≠ (st.levels lvl).priceCents) :
    (((st.insertLevelSorted s lvl).insertLevelIntoMap s lvl).book.side s).Threads st.orders
      ((st.insertLevelSorted s lvl).insertLevelIntoMap s lvl).levels s (l ++ (lvl, []) :: r) := by
  obtain ⟨hb, hn⟩ := neighbour_ne hfresh
  have hscan := scan_between h hl hr
  have hcontent := insertLevelSorted_content hscan hb hn
  rw [insertLevel_side hscan, insertLevelIntoMap_levels]
  refine ⟨?_, ?_, ?_, fun g hg => ?_, fun g hg => ?_, fun hfit => ?_⟩
  · have hlinked := h.linked
    rw [List.map_append] at hlinked
    rw [List.map_append, List.map_cons]
    exact linked_insertLevel hlinked hscan hfresh
  · show (if (l.map Prod.fst).getLast? = none then some lvl else (st.book.side s).best) = _
    rw [h.best]
    cases l <;> simp
  · show (st.book.side s).levelCount + 1 = _
    rw [h.levelCount, List.length_append, List.length_append, List.length_cons, ← Nat.add_assoc,
      UInt64.ofNat_add (l.length + r.length)]
    rfl
  · obtain ⟨prev, next, hlevel⟩ := hcontent g.1
    rw [hlevel]
    rcases mem_rungs.mp hg with rfl | hg
    · exact hqueue.congr rfl rfl rfl rfl fun _ _ => rfl
    · exact (h.queues g hg).congr rfl rfl rfl rfl fun _ _ => rfl
  · obtain ⟨prev, next, hlevel⟩ := hcontent g.1
    rw [hlevel]
    rcases mem_rungs.mp hg with rfl | hg
    · exact hside
    · exact h.side g hg
  · have hlen : (l ++ r).length < kPriceLevelMapCapacity := by
      simp only [List.length_append, List.length_cons] at hfit ⊢
      omega
    rw [levelAt_congr fun g _ => insertLevelSorted_price g.1]
    exact map_insertLevel (h.map hlen.le) hlen hnew

/-- Opening a level changes no level outside the side. -/
theorem insertLevelSorted_frame (h : (st.book.side s).Threads st.orders st.levels s (l ++ r))
    (hfresh : ∀ g ∈ l ++ r, g.1 ≠ lvl)
    (hl : ∀ g ∈ l, ahead s (st.levels g.1).priceCents (st.levels lvl).priceCents = true)
    (hr : ∀ g ∈ r, ahead s (st.levels g.1).priceCents (st.levels lvl).priceCents = false)
    (hq : ∀ g ∈ l ++ r, g.1 ≠ q) (hlvl : q ≠ lvl) :
    (st.insertLevelSorted s lvl).levels q = st.levels q := by
  obtain ⟨hb, hn⟩ := neighbour_ne hfresh
  obtain ⟨hbq, hnq⟩ := neighbour_ne hq
  rw [insertLevelSorted_levels (scan_between h hl hr) hb hn, if_neg hlvl, if_neg hbq, if_neg hnq]

/-- Opening a level relinks no level outside its side. -/
theorem relinked_insertLevel (h : (st.book.side s).Threads st.orders st.levels s (l ++ r))
    (hfresh : ∀ g ∈ l ++ r, g.1 ≠ lvl)
    (hl : ∀ g ∈ l, ahead s (st.levels g.1).priceCents (st.levels lvl).priceCents = true)
    (hr : ∀ g ∈ r, ahead s (st.levels g.1).priceCents (st.levels lvl).priceCents = false) :
    Relinked st ((st.insertLevelSorted s lvl).insertLevelIntoMap s lvl) s
      (lvl :: (l ++ r).map Prod.fst) where
  orders := rfl
  liveOrderCount := by
    rw [insertLevelIntoMap_liveOrderCount, insertLevelSorted_book (scan_between h hl hr)]
    rfl
  sides s' hs := by
    rw [insertLevelIntoMap_other lvl hs, insertLevelSorted_book (scan_between h hl hr),
      setSide_other hs]
  price q := insertLevelSorted_price q
  frame q hq := by
    rw [List.mem_cons, not_or] at hq
    exact insertLevelSorted_frame h hfresh hl hr
      (fun g hg he => hq.2 (List.mem_map.mpr ⟨g, hg, he⟩)) hq.1
  levelPool := rfl

/-! ## Retiring a level -/

/-- Removing a level relinks the two levels around it and clears its own links. -/
theorem removeLevelFromList_levels (hprev : (st.levels lvl).prevLevel = b)
    (hnext : (st.levels lvl).nextLevel = n) (hb : b ≠ some lvl) (hn : n ≠ some lvl) (q : Ptr) :
    (st.removeLevelFromList s lvl).levels q =
      if q = lvl then { st.levels lvl with prevLevel := none, nextLevel := none }
      else { st.levels q with
        nextLevel := if b = some q then n else (st.levels q).nextLevel
        prevLevel := if n = some q then b else (st.levels q).prevLevel } := by
  unfold removeLevelFromList
  simp only [hprev, hnext]
  by_cases hq : q = lvl
  · subst hq
    have hb' : ∀ x, b = some x → q ≠ x := fun x hx he => hb (he ▸ hx)
    have hn' : ∀ x, n = some x → q ≠ x := fun x hx he => hn (he ▸ hx)
    cases b <;> cases n <;> simp_all [modify_apply]
  · cases b <;> cases n <;>
      simp only [setLevels_levels, modify_apply, hq, ↓reduceIte, Option.some.injEq, reduceCtorEq,
        eq_comm (a := q)] <;> (repeat' split) <;> simp_all

/-- Unlinking a level changes no price. -/
theorem removeLevelFromList_price (q : Ptr) :
    ((st.removeLevelFromList s lvl).levels q).priceCents = (st.levels q).priceCents := by
  obtain ⟨b, hb⟩ : ∃ b, (st.levels lvl).prevLevel = b := ⟨_, rfl⟩
  obtain ⟨n, hn⟩ : ∃ n, (st.levels lvl).nextLevel = n := ⟨_, rfl⟩
  unfold removeLevelFromList
  simp only [hb, hn]
  cases b <;> cases n <;> simp only [setLevels_levels, modify_apply] <;> (repeat' split) <;> rfl

@[simp] theorem removeLevelFromList_orders :
    (st.removeLevelFromList s lvl).orders = st.orders := rfl

@[simp] theorem removeLevelFromList_levelPool :
    (st.removeLevelFromList s lvl).levelPool =
      { st.levelPool with storage := (st.removeLevelFromList s lvl).levels } := rfl

/-- The best level is replaced by the next one. -/
theorem removeLevelFromList_book (hprev : (st.levels lvl).prevLevel = b)
    (hnext : (st.levels lvl).nextLevel = n) :
    (st.removeLevelFromList s lvl).book =
      st.book.setSide s { st.book.side s with
        best := if b = none then n else (st.book.side s).best } := by
  unfold removeLevelFromList
  simp only [hprev, hnext]
  cases b <;> cases n <;> simp

/-- The neighbours of a level in the list. -/
theorem level_neighbours
    (h : (st.book.side s).Threads st.orders st.levels s (l ++ (lvl, os) :: r)) :
    (st.levels lvl).prevLevel = (l.map Prod.fst).getLast? ∧
      (st.levels lvl).nextLevel = (r.map Prod.fst).head? ∧ ∀ g ∈ l ++ r, g.1 ≠ lvl := by
  have hlinked := h.linked
  rw [List.map_append, List.map_cons] at hlinked
  refine ⟨hlinked.prev_eq, hlinked.next_eq, fun g hg he => ?_⟩
  have hnodup := List.perm_middle.nodup_iff.mp hlinked.nodup
  refine (List.nodup_cons.mp hnodup).1 ?_
  rw [← List.map_append]
  exact List.mem_map.mpr ⟨g, hg, he⟩

/-- Taking a level out of the list and the map. -/
theorem threads_removeLevel
    (h : (st.book.side s).Threads st.orders st.levels s (l ++ (lvl, os) :: r))
    (hfit : (l ++ (lvl, os) :: r).length ≤ kPriceLevelMapCapacity)
    (hpx : (st.levels lvl).priceCents ≠ kEmptyPrice)
    (hother : ∀ g ∈ l ++ r, (st.levels g.1).priceCents ≠ (st.levels lvl).priceCents) :
    (((st.removeLevelFromList s lvl).eraseLevelFromMap s lvl).book.side s).Threads st.orders
      ((st.removeLevelFromList s lvl).eraseLevelFromMap s lvl).levels s (l ++ r) := by
  obtain ⟨hprev, hnext, hne⟩ := level_neighbours h
  obtain ⟨hb, hn⟩ := neighbour_ne hne
  have hlinked := h.linked
  rw [List.map_append, List.map_cons] at hlinked
  have hlevels := removeLevelFromList_levels (s := s) hprev hnext hb hn
  have hprice : ∀ q, ((st.removeLevelFromList s lvl).levels q).priceCents =
      (st.levels q).priceCents := removeLevelFromList_price
  have hbook := removeLevelFromList_book (s := s) hprev hnext
  have hmapped : ((st.removeLevelFromList s lvl).eraseLevelFromMap s lvl).book.side s =
      { (st.removeLevelFromList s lvl).book.side s with
        map := (st.book.side s).map.erase levelLayout (st.levels lvl).priceCents
        levelCount := (st.book.side s).levelCount - 1 } := by
    simp only [eraseLevelFromMap, setSide_side, hprice, hbook]
  have hneq : ∀ p ∈ l.map Prod.fst ++ r.map Prod.fst, p ≠ lvl := by
    intro p hp
    rw [← List.map_append] at hp
    obtain ⟨g, hg, rfl⟩ := List.mem_map.mp hp
    exact hne g hg
  have hmem : ∀ g ∈ l ++ r, g ∈ l ++ (lvl, os) :: r := fun g hg => mem_rungs.mpr (.inr hg)
  rw [hmapped, hbook, setSide_side]
  refine ⟨?_, ?_, ?_, fun g hg => ?_, fun g hg => ?_, fun _ => ?_⟩
  · rw [List.map_append]
    refine hlinked.remove (fun y hy => ?_) fun y hy => ?_
    · simp [hlevels, hneq y hy]
    · simp [hlevels, hneq y hy]
  · show (if (l.map Prod.fst).getLast? = none then (r.map Prod.fst).head?
      else (st.book.side s).best) = _
    rw [h.best]
    cases l <;> simp
  · show (st.book.side s).levelCount - 1 = _
    rw [h.levelCount]
    simp [← Nat.add_assoc, UInt64.ofNat_add]
  · show ((st.removeLevelFromList s lvl).levels g.1).Queues st.orders g.2
    rw [hlevels, if_neg (hne g hg)]
    exact (h.queues g (hmem g hg)).congr rfl rfl rfl rfl fun _ _ => rfl
  · show ((st.removeLevelFromList s lvl).levels g.1).side = s
    rw [hlevels, if_neg (hne g hg)]
    exact h.side g (hmem g hg)
  · have hmap := h.map hfit
    rw [eraseLevelFromMap_levels, levelAt_congr fun g _ => hprice g.1,
      levelAt_remove (g := (lvl, os)) hother hpx]
    refine hmap.erase (w := some lvl) ?_
    exact levelAt_eq_some hpx rfl fun a ha => hother a (by simp [ha])

/-- Retiring a level changes no level outside the side. -/
theorem removeLevelFromList_frame
    (h : (st.book.side s).Threads st.orders st.levels s (l ++ (lvl, os) :: r))
    (hq : ∀ g ∈ l ++ (lvl, os) :: r, g.1 ≠ q) :
    (st.removeLevelFromList s lvl).levels q = st.levels q := by
  obtain ⟨hprev, hnext, hne⟩ := level_neighbours h
  obtain ⟨hb, hn⟩ := neighbour_ne hne
  obtain ⟨hbq, hnq⟩ := neighbour_ne fun g hg => hq g (mem_rungs.mpr (.inr hg))
  have hlvl : q ≠ lvl := fun he => hq (lvl, os) (by simp) he.symm
  rw [removeLevelFromList_levels hprev hnext hb hn, if_neg hlvl, if_neg hbq, if_neg hnq]

/-- Taking a level out relinks no level outside its side. -/
theorem relinked_removeLevel
    (h : (st.book.side s).Threads st.orders st.levels s (l ++ (lvl, os) :: r)) :
    Relinked st ((st.removeLevelFromList s lvl).eraseLevelFromMap s lvl) s
      ((l ++ (lvl, os) :: r).map Prod.fst) := by
  obtain ⟨hprev, hnext, -⟩ := level_neighbours h
  refine ⟨rfl, ?_, fun s' hs => ?_, removeLevelFromList_price, fun q hq => ?_, rfl⟩
  · rw [eraseLevelFromMap_liveOrderCount, removeLevelFromList_book hprev hnext]
    rfl
  · rw [eraseLevelFromMap_other lvl hs, removeLevelFromList_book hprev hnext, setSide_other hs]
  · exact removeLevelFromList_frame h fun g hg he => hq (List.mem_map.mpr ⟨g, hg, he⟩)

end BookState
end ItchParser
