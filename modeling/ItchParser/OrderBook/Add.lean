import ItchParser.OrderBook.Update

/-!
# `add_order`

An added order joins the level of its price or opens one, which needs a free level slot.
`opensLevel` says which, from the resting orders alone.
-/

namespace ItchParser

open Intrusive Ladder OrderBook PriceLevel

namespace BookState

variable {st : BookState} {s : Side} {resting : List Ptr} {rungs : Side → List Rung}
  {l r : List Rung} {o lvl : Ptr} {os free free' : List Ptr} {used : Ptr → Prop}

@[simp] theorem pushOrder_orders :
    (st.pushOrder lvl o).orders = ((st.levels lvl).pushBack st.orders o).2 := rfl

@[simp] theorem pushOrder_levels :
    (st.pushOrder lvl o).levels =
      Function.update st.levels lvl ((st.levels lvl).pushBack st.orders o).1 := rfl

/-- Queueing an order changes links only. -/
theorem pushOrder_data {orders : Ptr → Order} (h : (st.levels lvl).Queues orders os)
    (hfresh : o ∉ os) : orderData (st.pushOrder lvl o).orders = orderData st.orders := by
  have hne : (st.levels lvl).tailOrder ≠ some o := by
    rw [h.tail]
    exact fun he => hfresh (List.mem_of_getLast? he)
  exact funext fun p => pushBack_data hne p

/-- Pushing an order onto one of the rungs. -/
theorem threads_pushOrder
    (h : (st.book.side s).Threads st.orders st.levels s (l ++ (lvl, os) :: r)) (hfresh : o ∉ os)
    (hrest : ∀ g ∈ l ++ r, g.1 ≠ lvl ∧ ∀ p ∈ g.2, p ≠ o ∧ p ∉ os) :
    ((st.pushOrder lvl o).book.side s).Threads (st.pushOrder lvl o).orders
      (st.pushOrder lvl o).levels s (l ++ (lvl, os ++ [o]) :: r) := by
  have hqueue := h.queues (lvl, os) (by simp)
  obtain ⟨hprice, hside, hnext, hprev⟩ := pushBack_place (st.levels lvl) st.orders o
  refine h.setRung (hqueue.pushBack hfresh) hprice hside hnext hprev fun g hg => ?_
  obtain ⟨hne, hdisjoint⟩ := hrest g hg
  exact ⟨hne, fun p hp => hqueue.pushBack_frame (hdisjoint p hp).1 (hdisjoint p hp).2⟩

/-- Whether the order `o` opens a level on its side. -/
def opensLevel (orders : Ptr → Order) (resting : List Ptr) (o : Ptr) : Bool :=
  opens (pricePolicy (orders o).side) (priceOf orders) o
    (ladder (pricePolicy (orders o).side) (priceOf orders)
      (onSide orders (orders o).side resting))

/-- When an order opens a level, in terms of the rungs. -/
theorem opensLevel_eq (h : st.book.Represents st.orders st.levels resting rungs) :
    opensLevel st.orders resting o = true ↔
      ((st.orders o).priceCents = kEmptyPrice ∨
        ∀ g ∈ rungs (st.orders o).side, (st.levels g.1).priceCents ≠ (st.orders o).priceCents) := by
  rw [opensLevel, ← (h.sides _).grouping]
  simp [opens, priced, pricePolicy, priceOf]

/-- The search of `add_order` finds no level exactly when the order has to open one. -/
theorem findLevel_eq_none (h : st.book.Represents st.orders st.levels resting rungs)
    (hfit : ∀ s, (rungs s).length ≤ kPriceLevelMapCapacity)
    (hopens : opensLevel st.orders resting o = true) :
    st.book.findLevel (st.orders o).side (st.orders o).priceCents = none := by
  rw [h.findLevel_eq (hfit _), levelAt_eq_none_iff.mpr ((opensLevel_eq h).mp hopens)]
  rfl

/-- Pushing an order onto one of the rungs, for the whole book. The rungs may be those of a level
that was just opened, so they need not be a ladder yet. -/
theorem represents_pushOrder {st' : BookState}
    (h : st.book.Represents st.orders st.levels resting rungs) (hfresh : o ∉ resting)
    (hside : (st.orders o).side = s)
    (hthreads : (st'.book.side s).Threads st'.orders st'.levels s (l ++ (lvl, os) :: r))
    (horders : st'.orders = st.orders)
    (hlevels : ∀ s', s' ≠ s → ∀ g ∈ rungs s', g.1 ≠ lvl ∧ st'.levels g.1 = st.levels g.1)
    (hsides : ∀ s', s' ≠ s → st'.book.side s' = st.book.side s')
    (hcount : st'.book.liveOrderCount = st.book.liveOrderCount)
    (hos : ∀ p ∈ os, p ∈ onSide st.orders s resting)
    (hrest : ∀ g ∈ l ++ r, g.1 ≠ lvl ∧ ∀ p ∈ g.2, p ∈ resting ∧ p ∉ os)
    (hgrouping : priced st'.levels (l ++ (lvl, os ++ [o]) :: r) =
      enqueue (pricePolicy s) (priceOf st.orders) o
        (ladder (pricePolicy s) (priceOf st.orders) (onSide st.orders s resting))) :
    (st'.pushOrder lvl o).book.Represents (st'.pushOrder lvl o).orders (st'.pushOrder lvl o).levels
      (resting ++ [o]) (Function.update rungs s (l ++ (lvl, os ++ [o]) :: r)) := by
  have hfresh' : o ∉ os := fun hmem => hfresh (List.mem_filter.mp (hos o hmem)).1
  have hqueue := hthreads.queues (lvl, os) (by simp)
  have hdata : ∀ p, ((st'.pushOrder lvl o).orders p).toOrderData = (st.orders p).toOrderData := by
    intro p
    rw [← horders]
    exact congrFun (pushOrder_data hqueue hfresh') p
  have hprice : ∀ p, ((st'.pushOrder lvl o).orders p).priceCents = (st.orders p).priceCents :=
    fun p => congrArg OrderData.priceCents (hdata p)
  have hsame : ∀ p, ((st'.pushOrder lvl o).orders p).side = (st.orders p).side :=
    fun p => congrArg OrderData.side (hdata p)
  have hlink : ∀ q, ((st'.pushOrder lvl o).levels q).priceCents = (st'.levels q).priceCents := by
    intro q
    rw [pushOrder_levels]
    by_cases hq : q = lvl
    · rw [hq, Function.update_self, (pushBack_place _ _ _).1]
    · rw [Function.update_of_ne hq]
  refine h.setRungs (threads_pushOrder hthreads hfresh' fun g hg => ?_) ?_ (fun s' hs => ?_)
    (fun s' hs => ?_) (fun s' hs g hg => ?_) (fun p hp hps => ?_) ?_ ?_
  · obtain ⟨hlvl, hmem⟩ := hrest g hg
    exact ⟨hlvl, fun p hp => ⟨fun he => hfresh (he ▸ (hmem p hp).1), (hmem p hp).2⟩⟩
  · rw [priced_congr fun g _ => hlink g.1, hgrouping, ladder_onSide_congr hprice hsame]
    have honside : onSide st.orders s (resting ++ [o]) = onSide st.orders s resting ++ [o] := by
      simp [onSide, hside]
    rw [honside, ladder_concat]
  · exact hsides s' hs
  · rw [onSide_congr fun p _ => hsame p]
    have hos' : (st.orders o).side ≠ s' := fun he => hs (he ▸ hside)
    simp [onSide, hos']
  · obtain ⟨hlvl, hlev⟩ := hlevels s' hs g hg
    rw [pushOrder_levels, Function.update_of_ne hlvl, hlev]
  · have hpo : p ≠ o := fun he => hfresh (he ▸ hp)
    have hpos : p ∉ os := fun hmem => hps (by simpa using (List.mem_filter.mp (hos p hmem)).2)
    rw [pushOrder_orders, hqueue.pushBack_frame hpo hpos, horders]
  · exact List.nodup_append.mpr ⟨h.nodup, List.nodup_singleton o, fun a ha b hb => by
      rintro rfl
      rw [List.mem_singleton.mp hb] at ha
      exact hfresh ha⟩
  · show st'.book.liveOrderCount + 1 = _
    rw [hcount, h.liveOrderCount, List.length_append, List.length_singleton, UInt64.ofNat_add]
    rfl

/-- A rung of the priced list is a rung of the book. -/
theorem priced_eq_append {levels : Ptr → PriceLevel} {rs : List Rung}
    {a c : List (Price × List Ptr)} (h : priced levels rs = a ++ c) :
    ∃ l r, rs = l ++ r ∧ priced levels l = a ∧ priced levels r = c :=
  List.map_eq_append_iff.mp h

/-- `add_order` joins the level of its price when there is one. -/
theorem addOrder_joins (h : st.book.Represents st.orders st.levels resting rungs)
    (hpool : st.levelPool.Represents free used) (hused : ∀ q, OnRung rungs q → used q)
    (hfit : ∀ s, (rungs s).length ≤ kPriceLevelMapCapacity) (hfresh : o ∉ resting)
    (hopens : opensLevel st.orders resting o = false) :
    (st.addOrder o).1 = 1 ∧ ∃ rungs', levelTotal rungs' = levelTotal rungs ∧
      st.Update (st.addOrder o).2 used free free resting (resting ++ [o]) rungs rungs'
        (orderData st.orders) := by
  obtain ⟨hshared, a, os, c, hsplit, henqueue⟩ :=
    enqueue_joins (pricePolicy_lawful _) (ladder_sorted (pricePolicy_lawful _) _) hopens
  obtain ⟨s, hs⟩ : ∃ s, (st.orders o).side = s := ⟨_, rfl⟩
  rw [hs] at hshared hsplit henqueue
  rw [← (h.sides s).grouping] at hsplit
  obtain ⟨l, r', hrungs, rfl, hr'⟩ := priced_eq_append hsplit
  obtain ⟨⟨lvl, os'⟩, r, rfl, hg, rfl⟩ := List.map_eq_cons_iff.mp hr'
  obtain ⟨hprice, rfl⟩ : (st.levels lvl).priceCents = (st.orders o).priceCents ∧ os' = os :=
    Prod.mk.inj hg
  have hpx : (st.levels lvl).priceCents ≠ kEmptyPrice := hprice ▸ pricePolicy_shared.mp hshared
  have hfind := h.findLevel_eq_some hfit hrungs hpx
  have hadd : st.addOrder o = (1, st.pushOrder lvl o) := by
    unfold addOrder
    simp only [hs, ← hprice, hfind]
  have hside := h.sides s
  rw [hrungs] at hside
  have hmem : ∀ g ∈ l ++ r, g ∈ l ++ (lvl, os') :: r := fun g hg => mem_rungs.mpr (.inr hg)
  have hlvl : ∀ s', s' ≠ s → ∀ g ∈ rungs s', g.1 ≠ lvl := fun s' hs' g hg =>
    h.side_ne_slot hs' hg (hrungs ▸ by simp)
  have hrepresents := represents_pushOrder h hfresh hs hside.toThreads rfl
    (fun s' hs' g hg => ⟨hlvl s' hs' g hg, rfl⟩) (fun _ _ => rfl) rfl
    (fun p hp => hside.mem_resting (g := (lvl, os')) (by simp) hp)
    (fun g hg => ⟨(h.apart hrungs g hg).1, fun p hp =>
      ⟨(List.mem_filter.mp (hside.mem_resting (hmem g hg) hp)).1, (h.apart hrungs g hg).2 p hp⟩⟩)
    (by rw [henqueue]; simp [priced, priceOf, hprice])
  have hlvlrung : OnRung rungs lvl := onRung_of_mem (s := s) (g := (lvl, os')) (by simp [hrungs])
  have hqueue := hside.queues (lvl, os') (by simp)
  rw [hadd]
  have hdata := pushOrder_data hqueue fun hmem =>
    hfresh (List.mem_filter.mp (hside.mem_resting (g := (lvl, os')) (by simp) hmem)).1
  have htotal : levelTotal (Function.update rungs s (l ++ (lvl, os' ++ [o]) :: r)) =
      levelTotal rungs := levelTotal_replace hrungs
  refine ⟨rfl, _, htotal, hrepresents, ?_, rfl, hdata, by rw [htotal], fun q hq hq' => ?_,
    fun q _ hq => ?_⟩
  · exact hpool.rewrite hused hlvlrung fun q => onRung_replace hrungs
  · refine hqueue.pushBack_frame (fun he => hq' (by simp [he])) fun hmem => hq ?_
    exact (List.mem_filter.mp (hside.mem_resting (g := (lvl, os')) (by simp) hmem)).1
  · have hq' : q ≠ lvl := fun he => hq (he ▸ hlvlrung)
    exact Function.update_of_ne hq' _ _

/-- Without a free level slot, an order that has to open a level is turned away. -/
theorem addOrder_full (h : st.book.Represents st.orders st.levels resting rungs)
    (hpool : st.levelPool.Represents [] used)
    (hfit : ∀ s, (rungs s).length ≤ kPriceLevelMapCapacity)
    (hopens : opensLevel st.orders resting o = true) : st.addOrder o = (0, st) := by
  unfold addOrder
  simp only [findLevel_eq_none h hfit hopens, hpool.acquire_nil]

/-- The book after `add_order` acquired the slot `lvl` and constructed the level there. -/
def withFreshLevel (st : BookState) (lvl : Ptr) (head : Option Ptr) (px : Price) (s : Side) :
    BookState :=
  { st with levelPool := { st.levelPool with head := head } }.setLevels
    (modify st.levels lvl fun mem => mem.construct.reset px s)

/-- A fresh level is constructed and reset. -/
theorem withFreshLevel_levels (head : Option Ptr) (px : Price) :
    (st.withFreshLevel lvl head px s).levels =
      modify st.levels lvl fun mem => mem.construct.reset px s := rfl

/-- The book `st'` has an empty level more than `st`, between `l` and `r`: it was constructed in the
slot `lvl`, and `head` is left of the free list. -/
structure Opened (st st' : BookState) (s : Side) (px : Price) (lvl : Ptr) (head : Option Ptr)
    (l r : List Rung) : Prop where
  orders : st'.orders = st.orders
  liveOrderCount : st'.book.liveOrderCount = st.book.liveOrderCount
  sides : ∀ s', s' ≠ s → st'.book.side s' = st.book.side s'
  threads : (st'.book.side s).Threads st'.orders st'.levels s (l ++ (lvl, []) :: r)
  price : (st'.levels lvl).priceCents = px
  prices : ∀ q, q ≠ lvl → (st'.levels q).priceCents = (st.levels q).priceCents
  frame : ∀ q, q ≠ lvl → (∀ g ∈ l ++ r, g.1 ≠ q) → st'.levels q = st.levels q
  levelPool : st'.levelPool = { st.levelPool with head := head, storage := st'.levels }

/-- Constructing a level and linking it where its price belongs. -/
theorem opened_insertLevel (px : Price) (head : Option Ptr)
    (h : (st.book.side s).Threads st.orders st.levels s (l ++ r))
    (hfresh : ∀ g ∈ l ++ r, g.1 ≠ lvl)
    (hl : ∀ g ∈ l, ahead s (st.levels g.1).priceCents px = true)
    (hr : ∀ g ∈ r, ahead s (st.levels g.1).priceCents px = false)
    (hnew : px ≠ kEmptyPrice → ∀ g ∈ l ++ r, (st.levels g.1).priceCents ≠ px) :
    Opened st (((st.withFreshLevel lvl head px s).insertLevelSorted s lvl).insertLevelIntoMap s lvl)
      s px lvl head l r := by
  -- the book with the new level's memory written, but the level not linked yet
  obtain ⟨st₁, hst₁⟩ : ∃ st₁, st₁ = st.withFreshLevel lvl head px s := ⟨_, rfl⟩
  have hlevels₁ : ∀ q, q ≠ lvl → st₁.levels q = st.levels q := by
    intro q hq
    rw [hst₁, withFreshLevel_levels, modify_of_ne hq]
  have hlevel₁ : st₁.levels lvl = (st.levels lvl).construct.reset px s := by
    rw [hst₁, withFreshLevel_levels, modify_self]
  have hprice₁ : (st₁.levels lvl).priceCents = px := by
    rw [hlevel₁]
    rfl
  have horders₁ : st₁.orders = st.orders := by rw [hst₁]; rfl
  have hbook₁ : st₁.book = st.book := by rw [hst₁]; rfl
  have hpool₁ : st₁.levelPool = { st.levelPool with head := head, storage := st₁.levels } := by
    rw [hst₁]
    rfl
  have hthreads₁ : (st₁.book.side s).Threads st₁.orders st₁.levels s (l ++ r) := by
    rw [hbook₁, horders₁]
    exact h.congr (fun g hg => hlevels₁ _ (hfresh g hg)) fun _ _ _ _ => rfl
  have hl₁ : ∀ g ∈ l, ahead s (st₁.levels g.1).priceCents (st₁.levels lvl).priceCents = true := by
    intro g hg
    rw [hprice₁, hlevels₁ _ (hfresh g (by simp [hg]))]
    exact hl g hg
  have hr₁ : ∀ g ∈ r, ahead s (st₁.levels g.1).priceCents (st₁.levels lvl).priceCents = false := by
    intro g hg
    rw [hprice₁, hlevels₁ _ (hfresh g (by simp [hg]))]
    exact hr g hg
  have hnew₁ : (st₁.levels lvl).priceCents ≠ kEmptyPrice →
      ∀ g ∈ l ++ r, (st₁.levels g.1).priceCents ≠ (st₁.levels lvl).priceCents := by
    intro hpx g hg
    rw [hprice₁, hlevels₁ _ (hfresh g hg)]
    exact hnew (hprice₁ ▸ hpx) g hg
  have hthreads := threads_insertLevel hthreads₁ hfresh
    (by rw [hlevel₁]; exact ⟨Linked.nil, rfl, rfl, rfl, rfl⟩) (by rw [hlevel₁]; rfl) hl₁ hr₁ hnew₁
  have hrelinked := relinked_insertLevel hthreads₁ hfresh hl₁ hr₁
  rw [← hst₁]
  refine ⟨?_, ?_, fun s' hs => ?_, hthreads, ?_, fun q hq => ?_, fun q hq hq' => ?_, ?_⟩
  · rw [hrelinked.orders, horders₁]
  · rw [hrelinked.liveOrderCount, hbook₁]
  · rw [hrelinked.sides s' hs, hbook₁]
  · rw [hrelinked.price, hprice₁]
  · rw [hrelinked.price, hlevels₁ q hq]
  · have hout : q ∉ lvl :: (l ++ r).map Prod.fst := by
      rw [List.mem_cons, not_or, List.mem_map]
      exact ⟨hq, fun ⟨g, hg, he⟩ => hq' g hg he⟩
    rw [hrelinked.frame q hout, hlevels₁ q hq]
  · rw [hrelinked.levelPool, hpool₁]

/-- Without a level for its price, `add_order` constructs one where the order belongs in the ladder
and queues the order there. -/
theorem exists_opened (h : st.book.Represents st.orders st.levels resting rungs)
    (hpool : st.levelPool.Represents (lvl :: free') used)
    (hlvl : ∀ s', ∀ g ∈ rungs s', g.1 ≠ lvl)
    (hfit : ∀ s, (rungs s).length ≤ kPriceLevelMapCapacity)
    (hopens : opensLevel st.orders resting o = true) (hs : (st.orders o).side = s) :
    ∃ l r st', rungs s = l ++ r ∧
      Opened st st' s (st.orders o).priceCents lvl free'.head? l r ∧
      st.addOrder o = (2, st'.pushOrder lvl o) ∧
      enqueue (pricePolicy s) (priceOf st.orders) o
          (ladder (pricePolicy s) (priceOf st.orders) (onSide st.orders s resting)) =
        priced st.levels l ++ ((st.orders o).priceCents, [o]) :: priced st.levels r := by
  obtain ⟨a, c, hsplit, henqueue, hbefore, hbehind, hnew⟩ :=
    enqueue_opens (pricePolicy_lawful _) (ladder_sorted (pricePolicy_lawful _) _) hopens
  have hfind := findLevel_eq_none h hfit hopens
  rw [hs] at hsplit henqueue hbefore hbehind hnew hfind
  rw [← (h.sides s).grouping] at hsplit
  obtain ⟨l, r, hrungs, rfl, rfl⟩ := priced_eq_append hsplit
  have hside := h.sides s
  rw [hrungs] at hside
  have hopened := opened_insertLevel (st.orders o).priceCents free'.head? hside.toThreads
    (fun g hg => hlvl s g (hrungs ▸ hg))
    (fun g hg => hbefore _ (List.mem_map_of_mem hg))
    (fun g hg => hbehind _ (List.mem_map_of_mem hg)) fun hpx g hg => by
      refine hnew (pricePolicy_shared.mpr hpx) ((st.levels g.1).priceCents, g.2) ?_
      rw [priced, priced, ← List.map_append]
      exact List.mem_map_of_mem hg
  refine ⟨l, r, _, hrungs, hopened, ?_, henqueue⟩
  unfold addOrder
  simp only [hs, hfind, hpool.acquire_cons]
  rfl

/-- The book that shows the order on its new level. -/
theorem Opened.represents {st' : BookState} {px : Price} {head : Option Ptr}
    (hopened : Opened st st' s px lvl head l r)
    (h : st.book.Represents st.orders st.levels resting rungs) (hfresh : o ∉ resting)
    (hlvl : ∀ s', ∀ g ∈ rungs s', g.1 ≠ lvl) (hs : (st.orders o).side = s)
    (hrungs : rungs s = l ++ r)
    (henqueue : enqueue (pricePolicy s) (priceOf st.orders) o
        (ladder (pricePolicy s) (priceOf st.orders) (onSide st.orders s resting)) =
      priced st.levels l ++ (px, [o]) :: priced st.levels r) :
    (st'.pushOrder lvl o).book.Represents (st'.pushOrder lvl o).orders (st'.pushOrder lvl o).levels
      (resting ++ [o]) (Function.update rungs s (l ++ (lvl, [] ++ [o]) :: r)) := by
  have hside := h.sides s
  rw [hrungs] at hside
  have hlvl' : ∀ g ∈ l ++ r, g.1 ≠ lvl := fun g hg => hlvl s g (hrungs ▸ hg)
  have hpriced : ∀ rs : List Rung, (∀ g ∈ rs, g ∈ l ++ r) →
      priced st'.levels rs = priced st.levels rs := fun rs hrs =>
    priced_congr fun g hg => hopened.prices _ (hlvl' g (hrs g hg))
  have hother : ∀ s', s' ≠ s → ∀ g ∈ rungs s', g.1 ≠ lvl ∧ st'.levels g.1 = st.levels g.1 :=
    fun s' hs' g hg => ⟨hlvl s' g hg, hopened.frame _ (hlvl s' g hg) fun g' hg' =>
      h.side_ne (Ne.symm hs') (hrungs ▸ hg') hg⟩
  have hrest : ∀ g ∈ l ++ r, g.1 ≠ lvl ∧ ∀ p ∈ g.2, p ∈ resting ∧ p ∉ ([] : List Ptr) :=
    fun g hg => ⟨hlvl' g hg, fun p hp =>
      ⟨(List.mem_filter.mp (hside.mem_resting hg hp)).1, List.not_mem_nil⟩⟩
  refine represents_pushOrder h hfresh hs hopened.threads hopened.orders hother hopened.sides
    hopened.liveOrderCount (by simp) hrest ?_
  rw [henqueue, ← hpriced l fun g hg => by simp [hg], ← hpriced r fun g hg => by simp [hg]]
  simp only [priced, List.map_append, List.map_cons, List.nil_append, hopened.price]

/-- `add_order` opens a level for a price that has none. -/
theorem addOrder_opens (h : st.book.Represents st.orders st.levels resting rungs)
    (hpool : st.levelPool.Represents (lvl :: free') used) (hused : ∀ q, OnRung rungs q → used q)
    (hfit : ∀ s, (rungs s).length ≤ kPriceLevelMapCapacity) (hfresh : o ∉ resting)
    (hopens : opensLevel st.orders resting o = true) :
    (st.addOrder o).1 = 2 ∧ ∃ rungs', levelTotal rungs' = levelTotal rungs + 1 ∧
      st.Update (st.addOrder o).2 used (lvl :: free') free' resting (resting ++ [o]) rungs rungs'
        (orderData st.orders) := by
  have hfree : ¬ used lvl := hpool.not_used (by simp)
  have hlvl : ∀ s', ∀ g ∈ rungs s', g.1 ≠ lvl := fun s' g hg he =>
    hfree (he ▸ hused _ (onRung_of_mem hg))
  obtain ⟨l, r, st', hrungs, hopened, hadd, henqueue⟩ :=
    exists_opened h hpool hlvl hfit hopens rfl
  have htotal : levelTotal (Function.update rungs (st.orders o).side (l ++ (lvl, [] ++ [o]) :: r)) =
      levelTotal rungs + 1 := levelTotal_insert hrungs
  have hpool' : (st'.pushOrder lvl o).levelPool = { st.levelPool with
      head := free'.head?
      storage := (st'.pushOrder lvl o).levels } := by
    show { st'.levelPool with storage := (st'.pushOrder lvl o).levels } = _
    rw [hopened.levelPool]
  -- levels of other books, and slots that no book uses
  have houtside : ∀ q, q ≠ lvl → ¬ OnRung rungs q →
      (st'.pushOrder lvl o).levels q = st.levels q := by
    intro q hq hrung
    rw [pushOrder_levels, Function.update_of_ne hq, hopened.frame q hq fun g hg =>
      ne_of_not_onRung hrung (hrungs ▸ hg)]
  have hqueue := hopened.threads.queues (lvl, []) (by simp)
  have hdata : orderData (st'.pushOrder lvl o).orders = orderData st.orders := by
    rw [pushOrder_data hqueue List.not_mem_nil, hopened.orders]
  rw [hadd]
  refine ⟨rfl, _, htotal, hopened.represents h hfresh hlvl rfl hrungs henqueue, ?_, by rw [hpool'],
    hdata, ?_, fun q hq hq' => ?_, fun q hq hq' => ?_⟩
  · rw [hpool']
    refine (hpool.acquired.congr _ fun q hq => ?_).congr_used fun q => ?_
    · rw [not_or] at hq
      exact houtside q hq.2 fun hrung => hq.1 (hused q hrung)
    · rw [onRung_insert hrungs]
      have := hused q
      tauto
  · rw [htotal, List.length_cons]
    omega
  · have hqo : q ≠ o := fun he => hq' (by simp [he])
    rw [pushOrder_orders, hqueue.pushBack_frame hqo List.not_mem_nil, hopened.orders]
  · exact houtside q (fun he => hfree (he ▸ hq)) hq'

end BookState
end ItchParser
