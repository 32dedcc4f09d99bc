import ItchParser.OrderBook.Update

/-!
# `remove_order` and `execute_order`

Both take an order out of its queue and retire the level when it was the last one. `Unlinked` is
what they have in common: the level and the order memory once the order is out of the queue.
-/

namespace ItchParser

open Intrusive Ladder OrderBook PriceLevel

namespace BookState

variable {st : BookState} {s : Side} {resting : List Ptr} {rungs : Side → List Rung}
  {l r : List Rung} {o lvl : Ptr} {os free free' : List Ptr} {used : Ptr → Prop}

/-! ## Taking an order off the book -/

/-- `result` is the level `lvl` and the order memory with the order `o` out of its queue. -/
structure Unlinked (st : BookState) (lvl o : Ptr) (front behind : List Ptr)
    (result : PriceLevel × (Ptr → Order)) : Prop where
  queue : result.1.Queues result.2 (front ++ behind)
  price : result.1.priceCents = (st.levels lvl).priceCents
  side : result.1.side = (st.levels lvl).side
  next : result.1.nextLevel = (st.levels lvl).nextLevel
  prev : result.1.prevLevel = (st.levels lvl).prevLevel
  frame : ∀ q, q ∉ front ++ o :: behind → result.2 q = st.orders q
  order_price : ∀ q, (result.2 q).priceCents = (st.orders q).priceCents
  order_side : ∀ q, (result.2 q).side = (st.orders q).side

section Unlinked

variable {front behind : List Ptr} {result : PriceLevel × (Ptr → Order)}

@[simp] theorem putUnlinked_orders : (st.putUnlinked lvl result).orders = result.2 := rfl

@[simp] theorem putUnlinked_levels :
    (st.putUnlinked lvl result).levels = Function.update st.levels lvl result.1 := rfl

/-- `unlink_and_deduct` takes the order out of the queue. -/
theorem unlinked_unlinkAndDeduct
    (h : (st.levels lvl).Queues st.orders (front ++ o :: behind)) :
    Unlinked st lvl o front behind ((st.levels lvl).unlinkAndDeduct st.orders o) := by
  have hdata := h.unlink_data { st.levels lvl with
    totalShares := (st.levels lvl).totalShares - (st.orders o).sharesRemaining.toUInt64 }
  obtain ⟨hprice, hside, hnext, hprev⟩ := unlink_place { st.levels lvl with
    totalShares := (st.levels lvl).totalShares - (st.orders o).sharesRemaining.toUInt64 }
      st.orders o
  exact ⟨h.unlinkAndDeduct, hprice, hside, hnext, hprev, fun q hq => h.unlink_frame _ hq,
    fun q => congrArg OrderData.priceCents (hdata q), fun q => congrArg OrderData.side (hdata q)⟩

/-- No level changes its price when an order leaves it. -/
theorem putUnlinked_price (hresult : Unlinked st lvl o front behind result) (q : Ptr) :
    ((st.putUnlinked lvl result).levels q).priceCents = (st.levels q).priceCents := by
  rw [putUnlinked_levels]
  by_cases hq : q = lvl
  · rw [hq, Function.update_self, hresult.price]
  · rw [Function.update_of_ne hq]

/-- The other orders of the queue keep it as it was. -/
theorem filter_middle {xs : List Ptr} (hnodup : xs.Nodup) (hxs : xs = front ++ o :: behind) :
    xs.filter (fun p => p ≠ o) = front ++ behind := by
  subst hxs
  have hmiddle := List.nodup_cons.mp (List.perm_middle.nodup_iff.mp hnodup)
  have hne : ∀ p ∈ front ++ behind, p ≠ o := by
    rintro p hp rfl
    exact hmiddle.1 hp
  rw [List.filter_append, List.filter_cons_of_neg (by simp), ← List.filter_append]
  exact List.filter_eq_self.mpr fun p hp => by simpa using hne p hp

/-- What is left of the rungs of a side when one order is taken out. -/
theorem restrict_rung (h : st.book.Represents st.orders st.levels resting rungs)
    (hrungs : rungs s = l ++ (lvl, front ++ o :: behind) :: r) :
    ladder (pricePolicy s) (priceOf st.orders)
        (onSide st.orders s (resting.filter fun p => p ≠ o)) =
      priced st.levels l ++
        (if front ++ behind = [] then priced st.levels r
          else ((st.levels lvl).priceCents, front ++ behind) :: priced st.levels r) := by
  have hside := h.sides s
  rw [hrungs] at hside
  have hkeep : ∀ rs : List Rung, (∀ g ∈ rs, g ∈ l ++ r) →
      restrict (fun p => p ≠ o) (priced st.levels rs) = priced st.levels rs := by
    intro rs hrs
    have hmem : ∀ g ∈ rs, g ∈ l ++ (lvl, front ++ o :: behind) :: r := by
      intro g hg
      rcases List.mem_append.mp (hrs g hg) with hg | hg <;> simp [hg]
    refine restrict_eq_self (fun g hg => ?_) fun g hg p hp => ?_
    · obtain ⟨g', hg', rfl⟩ := List.mem_map.mp hg
      exact hside.ne_nil (hmem g' hg')
    · obtain ⟨g', hg', rfl⟩ := List.mem_map.mp hg
      have hnot := (h.apart hrungs g' (hrs g' hg')).2 p hp
      simp only [decide_eq_true_eq]
      rintro rfl
      exact hnot (by simp)
  have hnodup := (hside.queues (lvl, front ++ o :: behind) (by simp)).linked.nodup
  have hcomm : onSide st.orders s (resting.filter fun p => p ≠ o) =
      (onSide st.orders s resting).filter fun p => p ≠ o := List.filter_comm _ _ _
  rw [hcomm, ladder_filter (pricePolicy_lawful s), ← hside.grouping, priced, List.map_append,
    List.map_cons, restrict_append, restrict_cons]
  simp only [filter_middle hnodup rfl]
  rw [← priced, ← priced, hkeep l fun g hg => by simp [hg], hkeep r fun g hg => by simp [hg]]

variable {data : Ptr → OrderData}

/-- The threads of the side once the order is out of its queue. -/
theorem threads_putUnlinked (h : st.book.Represents st.orders st.levels resting rungs)
    (hrungs : rungs s = l ++ (lvl, front ++ o :: behind) :: r)
    (hresult : Unlinked st lvl o front behind result) :
    ((st.putUnlinked lvl result).book.side s).Threads (st.putUnlinked lvl result).orders
      (st.putUnlinked lvl result).levels s (l ++ (lvl, front ++ behind) :: r) := by
  have hside := h.sides s
  rw [hrungs] at hside
  refine hside.toThreads.setRung hresult.queue hresult.price hresult.side hresult.next
    hresult.prev fun g hg => ?_
  obtain ⟨hne, hapart⟩ := h.apart hrungs g hg
  exact ⟨hne, fun p hp => hresult.frame p (hapart p hp)⟩

/-- The whole book once the order is out of it and the rungs of its side are `rs`. -/
theorem represents_without (st' : BookState) (rs : List Rung)
    (h : st.book.Represents st.orders st.levels resting rungs)
    (hrungs : rungs s = l ++ (lvl, front ++ o :: behind) :: r)
    (hresult : Unlinked st lvl o front behind result)
    (hthreads : (st'.book.side s).Threads result.2 st'.levels s rs)
    (hgrouping : priced st'.levels rs = ladder (pricePolicy s) (priceOf st.orders)
      (onSide st.orders s (resting.filter fun p => p ≠ o)))
    (hsides : ∀ s', s' ≠ s → st'.book.side s' = st.book.side s')
    (hlevels : ∀ s', s' ≠ s → ∀ g ∈ rungs s', st'.levels g.1 = st.levels g.1)
    (hcount : st'.book.liveOrderCount = st.book.liveOrderCount - 1) :
    st'.book.Represents result.2 st'.levels (resting.filter fun p => p ≠ o)
      (Function.update rungs s rs) := by
  have hmem : o ∈ resting ∧ (st.orders o).side = s :=
    h.mem_of_rung (g := (lvl, front ++ o :: behind)) (by simp [hrungs]) (by simp)
  refine h.setRungs hthreads ?_ hsides (fun s' hs => ?_) hlevels (fun p hp hps => ?_)
    (h.nodup.filter _) ?_
  · rw [hgrouping, ladder_onSide_congr hresult.order_price hresult.order_side]
  · have hne : (st.orders o).side ≠ s' := fun he => hs (he ▸ hmem.2)
    rw [onSide_congr fun p _ => hresult.order_side p]
    unfold onSide
    rw [List.filter_filter]
    refine List.filter_congr fun p _ => ?_
    by_cases hp : p = o
    · simp [hp, hne]
    · simp [hp]
  · refine hresult.frame p fun hin => hps ?_
    exact (h.mem_of_rung (g := (lvl, front ++ o :: behind)) (by simp [hrungs]) hin).2
  · -- the count is a machine word, so it is compared after adding the order back
    have hlen := Intrusive.length_filter_ne h.nodup hmem.1
    rw [hcount, h.liveOrderCount, ← hlen, UInt64.ofNat_add]
    simp

/-- An order that leaves others behind in its level. -/
theorem retireLevel_keeps (h : st.book.Represents st.orders st.levels resting rungs)
    (hpool : st.levelPool.Represents free used) (hused : ∀ q, OnRung rungs q → used q)
    (hrungs : rungs s = l ++ (lvl, front ++ o :: behind) :: r)
    (hlen : (front ++ behind).length < 4294967296)
    (hresult : Unlinked st lvl o front behind result) (hdata : orderData result.2 = data)
    (hrest : front ++ behind ≠ []) :
    ((st.putUnlinked lvl result).retireLevel s lvl).1 = 1 ∧
      ∃ rungs', levelTotal rungs' = levelTotal rungs ∧
        st.Update ((st.putUnlinked lvl result).retireLevel s lvl).2 used free free resting
          (resting.filter fun p => p ≠ o) rungs rungs' data := by
  have hthreads := threads_putUnlinked h hrungs hresult
  have hkeep : (st.putUnlinked lvl result).retireLevel s lvl =
      (1, st.putUnlinked lvl result) := by
    unfold retireLevel
    rw [if_neg]
    rw [putUnlinked_levels, Function.update_self, hresult.queue.empty_iff hlen]
    exact hrest
  have hlvl : ∀ s', s' ≠ s → ∀ g ∈ rungs s', g.1 ≠ lvl := fun s' hs g hg =>
    h.side_ne_slot hs hg (hrungs ▸ by simp)
  have hlvlrung : OnRung rungs lvl :=
    onRung_of_mem (s := s) (g := (lvl, front ++ o :: behind)) (by simp [hrungs])
  have hprices := putUnlinked_price hresult
  have hrepresents := represents_without (st.putUnlinked lvl result) _ h hrungs hresult
    hthreads ?_ (fun _ _ => rfl) (fun s' hs g hg => ?_) rfl
  · have htotal : levelTotal (Function.update rungs s (l ++ (lvl, front ++ behind) :: r)) =
        levelTotal rungs := levelTotal_replace hrungs
    rw [hkeep]
    refine ⟨rfl, _, htotal, hrepresents, ?_, rfl, hdata, by rw [htotal], fun q hq _ => ?_,
      fun q _ hq => ?_⟩
    · exact hpool.rewrite hused hlvlrung fun q => onRung_replace hrungs
    · refine hresult.frame q fun hin => hq ?_
      exact (h.mem_of_rung (s := s) (g := (lvl, front ++ o :: behind)) (by simp [hrungs]) hin).1
    · have hne : q ≠ lvl := fun he => hq (he ▸ hlvlrung)
      exact Function.update_of_ne hne _ _
  · rw [restrict_rung h hrungs, if_neg hrest, priced_congr fun g _ => hprices g.1]
    simp [priced]
  · exact Function.update_of_ne (hlvl s' hs g hg) _ _

/-- The book `st'` has lost the empty level `lvl` of `st` between `l` and `r`, and its slot is free
again. -/
structure Retired (st st' : BookState) (s : Side) (lvl : Ptr) (l r : List Rung) : Prop where
  orders : st'.orders = st.orders
  liveOrderCount : st'.book.liveOrderCount = st.book.liveOrderCount
  sides : ∀ s', s' ≠ s → st'.book.side s' = st.book.side s'
  threads : (st'.book.side s).Threads st'.orders st'.levels s (l ++ r)
  prices : ∀ q, q ≠ lvl → (st'.levels q).priceCents = (st.levels q).priceCents
  frame : ∀ q, q ≠ lvl → (∀ g ∈ l ++ r, g.1 ≠ q) → st'.levels q = st.levels q
  levelPool : ∃ storage, (∀ q, q ≠ lvl → storage q = st'.levels q) ∧
    st'.levelPool = ({ st.levelPool with storage := storage }).release (some lvl)

/-- Taking an empty level out of the list and the map, and releasing its slot. -/
theorem retired_retireLevel
    (h : (st.book.side s).Threads st.orders st.levels s (l ++ (lvl, []) :: r))
    (hfit : (l ++ (lvl, []) :: r).length ≤ kPriceLevelMapCapacity)
    (hpx : (st.levels lvl).priceCents ≠ kEmptyPrice)
    (hother : ∀ g ∈ l ++ r, (st.levels g.1).priceCents ≠ (st.levels lvl).priceCents) :
    (st.retireLevel s lvl).1 = 2 ∧ Retired st (st.retireLevel s lvl).2 s lvl l r := by
  have hremoved := threads_removeLevel h hfit hpx hother
  have hrelinked := relinked_removeLevel h
  obtain ⟨-, -, hapart⟩ := level_neighbours h
  -- the book with the level out of the list and the map, and its slot not released yet
  obtain ⟨st₂, hst₂⟩ : ∃ st₂, st₂ =
    (st.removeLevelFromList s lvl).eraseLevelFromMap s lvl := ⟨_, rfl⟩
  have hretire : st.retireLevel s lvl =
      (2, { st₂ with levelPool := st₂.levelPool.release (some lvl) }) := by
    unfold retireLevel
    rw [if_pos, hst₂]
    rw [(h.queues (lvl, []) (by simp)).empty_iff (by simp)]
  rw [← hst₂] at hremoved hrelinked
  rw [← hrelinked.orders] at hremoved
  have hreleased : ∀ q, q ≠ lvl →
      (st₂.levelPool.release (some lvl)).storage q = st₂.levels q := fun q hq =>
    Function.update_of_ne hq _ _
  rw [hretire]
  refine ⟨rfl, hrelinked.orders, hrelinked.liveOrderCount, hrelinked.sides, ?_, fun q hq => ?_,
    fun q hq hq' => ?_, st₂.levels, fun q hq => (hreleased q hq).symm, ?_⟩
  · exact hremoved.congr (fun g hg => hreleased _ (hapart g hg)) fun _ _ _ _ => rfl
  · exact (congrArg PriceLevel.priceCents (hreleased q hq)).trans (hrelinked.price q)
  · have hout : q ∉ (l ++ (lvl, []) :: r).map Prod.fst := by
      rw [List.mem_map]
      rintro ⟨g, hg, he⟩
      rcases mem_rungs.mp hg with rfl | hg
      · exact hq he.symm
      · exact hq' g hg he
    exact (hreleased q hq).trans (hrelinked.frame q hout)
  · rw [← hrelinked.levelPool]

/-- The slot of the retired level is the first free one, and the levels in use are untouched. -/
theorem Retired.pool {st₀ st' : BookState} (hretired : Retired st st' s lvl l r)
    (hpool : st₀.levelPool.Represents free used) (hlvl : used lvl)
    (hsame : st.levelPool = { st₀.levelPool with storage := st.levels })
    (hframe : ∀ q, ¬ used q → st'.levels q = st₀.levels q) :
    st'.levelPool.capacity = st₀.levelPool.capacity ∧
      st'.levelPool.Represents (lvl :: free) fun q => used q ∧ q ≠ lvl := by
  obtain ⟨storage, hstorage, hlevelPool⟩ := hretired.levelPool
  rw [hlevelPool, hsame]
  refine ⟨rfl, MemoryPool.Represents.released ?_ hlvl⟩
  refine hpool.congr _ fun q hq => ?_
  have hne : q ≠ lvl := fun he => hq (he ▸ hlvl)
  exact (hstorage q hne).trans (hframe q hq)

/-- The last order of a level takes the level with it. -/
theorem retireLevel_retires (h : st.book.Represents st.orders st.levels resting rungs)
    (hpool : st.levelPool.Represents free used) (hused : ∀ q, OnRung rungs q → used q)
    (hfit : ∀ s, (rungs s).length ≤ kPriceLevelMapCapacity)
    (hpx : (st.levels lvl).priceCents ≠ kEmptyPrice)
    (hrungs : rungs s = l ++ (lvl, front ++ o :: behind) :: r)
    (hresult : Unlinked st lvl o front behind result) (hdata : orderData result.2 = data)
    (hrest : front ++ behind = []) :
    ((st.putUnlinked lvl result).retireLevel s lvl).1 = 2 ∧
      ∃ rungs', levelTotal rungs' + 1 = levelTotal rungs ∧
        st.Update ((st.putUnlinked lvl result).retireLevel s lvl).2 used free (lvl :: free) resting
          (resting.filter fun p => p ≠ o) rungs rungs' data := by
  have hthreads := threads_putUnlinked h hrungs hresult
  rw [hrest] at hthreads
  have hside := h.sides s
  rw [hrungs] at hside
  have hlvlrung : OnRung rungs lvl :=
    onRung_of_mem (s := s) (g := (lvl, front ++ o :: behind)) (by simp [hrungs])
  have hfit' := hfit s
  rw [hrungs] at hfit'
  have hprices := putUnlinked_price hresult
  obtain ⟨hcode, hretired⟩ := retired_retireLevel hthreads (by simpa using hfit')
    (by rw [hprices]; exact hpx) fun g hg => by
      rw [hprices, hprices]
      exact hside.price_ne (g := (lvl, front ++ o :: behind)) hpx hg
  obtain ⟨st', hst'⟩ : ∃ st', st' = ((st.putUnlinked lvl result).retireLevel s lvl).2 := ⟨_, rfl⟩
  rw [← hst'] at hretired ⊢
  have horders : st'.orders = result.2 := hretired.orders
  have hframe : ∀ q, (∀ g ∈ l ++ (lvl, front ++ o :: behind) :: r, g.1 ≠ q) →
      st'.levels q = st.levels q := by
    intro q hq
    have hlvl : q ≠ lvl := fun he => hq (lvl, front ++ o :: behind) (by simp) he.symm
    rw [hretired.frame q hlvl fun g hg => hq g (mem_rungs.mpr (.inr hg)), putUnlinked_levels,
      Function.update_of_ne hlvl]
  obtain ⟨hcapacity, hpool'⟩ := hretired.pool hpool (hused lvl hlvlrung) rfl fun q hq =>
    hframe q fun g hg he => hq (hused q (he ▸ onRung_of_mem (hrungs ▸ hg)))
  have hrepresents := represents_without st' (l ++ r) h hrungs hresult ?_ ?_ hretired.sides
    (fun s' hs g hg => hframe _ fun g' hg' => h.side_ne (Ne.symm hs) (hrungs ▸ hg') hg)
    hretired.liveOrderCount
  · rw [← horders] at hrepresents
    refine ⟨hcode, Function.update rungs s (l ++ r), levelTotal_remove hrungs, hrepresents, ?_,
      hcapacity, by rw [horders, hdata], ?_, fun q hq _ => ?_, fun q _ hq => ?_⟩
    · refine hpool'.congr_used fun q => ?_
      rw [h.onRung_remove hrungs]
      have hq := hused q
      have hne : ¬ OnRung rungs q → q ≠ lvl := fun hnot he => hnot (he ▸ hlvlrung)
      tauto
    · have htotal := levelTotal_remove hrungs
      simp only [List.length_cons]
      omega
    · rw [horders]
      refine hresult.frame q fun hin => hq ?_
      exact (h.mem_of_rung (s := s) (g := (lvl, front ++ o :: behind)) (by simp [hrungs]) hin).1
    · exact hframe q fun g hg => ne_of_not_onRung hq (hrungs ▸ hg)
  · rw [← horders]
    exact hretired.threads
  · obtain ⟨-, -, hapart⟩ := level_neighbours hthreads
    have hpriced : priced st'.levels (l ++ r) = priced st.levels (l ++ r) :=
      priced_congr fun g hg => by rw [hretired.prices _ (hapart g hg), hprices]
    rw [hpriced, restrict_rung h hrungs, if_pos hrest]
    simp [priced]

end Unlinked

/-! ## `remove_order` -/

variable {front behind : List Ptr}

/-- Where a resting order stands. -/
theorem exists_place (h : st.book.Represents st.orders st.levels resting rungs)
    (ho : o ∈ resting) :
    ∃ l lvl front behind r, rungs (st.orders o).side = l ++ (lvl, front ++ o :: behind) :: r ∧
      (st.levels lvl).priceCents = (st.orders o).priceCents := by
  obtain ⟨⟨lvl, os⟩, hg, hin⟩ := h.exists_rung ho
  obtain ⟨l, r, hrungs⟩ := List.append_of_mem hg
  obtain ⟨front, behind, rfl⟩ := List.append_of_mem hin
  exact ⟨l, lvl, front, behind, r, hrungs, ((h.sides _).price_eq hg hin).symm⟩

/-- The reserved price is never found. -/
theorem findLevel_reserved (h : st.book.Represents st.orders st.levels resting rungs)
    (hfit : ∀ s, (rungs s).length ≤ kPriceLevelMapCapacity)
    (hpx : (st.orders o).priceCents = kEmptyPrice) :
    st.book.findLevel (st.orders o).side (st.orders o).priceCents = none := by
  rw [h.findLevel_eq (hfit _), levelAt_eq_none_iff.mpr (.inl hpx)]
  rfl

/-- An order at the reserved price has no level, and a delete leaves it alone. -/
theorem removeOrder_missing (h : st.book.Represents st.orders st.levels resting rungs)
    (hfit : ∀ s, (rungs s).length ≤ kPriceLevelMapCapacity)
    (hpx : (st.orders o).priceCents = kEmptyPrice) : st.removeOrder o = (0, st) := by
  unfold removeOrder
  simp only [findLevel_reserved h hfit hpx]

/-- `result` is 1 when the levels stay as they are and 2 when one level goes. -/
def Retires (result : Int) (rungs rungs' : Side → List Rung) : Prop :=
  (result = 1 ∧ levelTotal rungs' = levelTotal rungs) ∨
    (result = 2 ∧ levelTotal rungs' + 1 = levelTotal rungs)

/-- An order out of its queue is an order out of the book. -/
theorem retireLevel_update {result : PriceLevel × (Ptr → Order)} {data : Ptr → OrderData}
    (h : st.book.Represents st.orders st.levels resting rungs)
    (hpool : st.levelPool.Represents free used) (hused : ∀ q, OnRung rungs q → used q)
    (hfit : ∀ s, (rungs s).length ≤ kPriceLevelMapCapacity)
    (hlen : ∀ s, ∀ g ∈ rungs s, g.2.length ≤ 4294967296)
    (hpx : (st.levels lvl).priceCents ≠ kEmptyPrice)
    (hrungs : rungs s = l ++ (lvl, front ++ o :: behind) :: r)
    (hresult : Unlinked st lvl o front behind result) (hdata : orderData result.2 = data) :
    ∃ free' rungs', Retires ((st.putUnlinked lvl result).retireLevel s lvl).1 rungs rungs' ∧
      st.Update ((st.putUnlinked lvl result).retireLevel s lvl).2 used free free' resting
        (resting.filter fun p => p ≠ o) rungs rungs' data := by
  by_cases hrest : front ++ behind = []
  · obtain ⟨hrc, rungs', htotal, hupdate⟩ :=
      retireLevel_retires h hpool hused hfit hpx hrungs hresult hdata hrest
    exact ⟨_, rungs', .inr ⟨hrc, htotal⟩, hupdate⟩
  · have hshort := hlen s (lvl, front ++ o :: behind) (by simp [hrungs])
    simp only [List.length_append, List.length_cons] at hshort
    obtain ⟨hrc, rungs', htotal, hupdate⟩ :=
      retireLevel_keeps h hpool hused hrungs (by simp only [List.length_append]; omega) hresult
        hdata hrest
    exact ⟨_, rungs', .inl ⟨hrc, htotal⟩, hupdate⟩

/-- `remove_order` takes a resting order off the book. -/
theorem removeOrder_update (h : st.book.Represents st.orders st.levels resting rungs)
    (hpool : st.levelPool.Represents free used) (hused : ∀ q, OnRung rungs q → used q)
    (hfit : ∀ s, (rungs s).length ≤ kPriceLevelMapCapacity)
    (hlen : ∀ s, ∀ g ∈ rungs s, g.2.length ≤ 4294967296) (ho : o ∈ resting)
    (hpx : (st.orders o).priceCents ≠ kEmptyPrice) :
    ∃ free' rungs', Retires (st.removeOrder o).1 rungs rungs' ∧
      st.Update (st.removeOrder o).2 used free free' resting (resting.filter fun p => p ≠ o) rungs
        rungs' (orderData st.orders) := by
  obtain ⟨l, lvl, front, behind, r, hrungs, hprice⟩ := exists_place h ho
  rw [← hprice] at hpx
  have hfind := h.findLevel_eq_some hfit hrungs hpx
  have hremove : st.removeOrder o = (st.putUnlinked lvl
      ((st.levels lvl).unlinkAndDeduct st.orders o)).retireLevel (st.orders o).side lvl := by
    rw [hprice] at hfind
    unfold removeOrder
    simp only [hfind]
  have hqueue := (h.sides (st.orders o).side).queues (lvl, front ++ o :: behind)
    (by rw [hrungs]; simp)
  rw [hremove]
  exact retireLevel_update h hpool hused hfit hlen hpx hrungs (unlinked_unlinkAndDeduct hqueue)
    (funext fun q => hqueue.unlink_data _ q)

/-! ## `execute_order` -/

/-- An order with fewer shares. -/
def reduced (orders : Ptr → Order) (o : Ptr) (left : Shares) : Ptr → Order :=
  Function.update orders o { orders o with sharesRemaining := left }

/-- A partial fill keeps the price. -/
theorem reduced_price {orders : Ptr → Order} {left : Shares} (q : Ptr) :
    (reduced orders o left q).priceCents = (orders q).priceCents := by
  by_cases hq : q = o
  · rw [hq, reduced, Function.update_self]
  · rw [reduced, Function.update_of_ne hq]

/-- A partial fill keeps the side. -/
theorem reduced_side {orders : Ptr → Order} {left : Shares} (q : Ptr) :
    (reduced orders o left q).side = (orders q).side := by
  by_cases hq : q = o
  · rw [hq, reduced, Function.update_self]
  · rw [reduced, Function.update_of_ne hq]

/-- An order at the reserved price has no level, and an execution leaves it alone. -/
theorem executeOrder_missing (h : st.book.Represents st.orders st.levels resting rungs)
    (hfit : ∀ s, (rungs s).length ≤ kPriceLevelMapCapacity)
    (hpx : (st.orders o).priceCents = kEmptyPrice) (qty : Shares) :
    st.executeOrder o qty = (-1, st) := by
  unfold executeOrder
  simp only [findLevel_reserved h hfit hpx]

/-- A fill for fewer shares than the order has left. -/
theorem executeOrder_partial (h : st.book.Represents st.orders st.levels resting rungs)
    (hpool : st.levelPool.Represents free used) (hused : ∀ q, OnRung rungs q → used q)
    (hfit : ∀ s, (rungs s).length ≤ kPriceLevelMapCapacity) (ho : o ∈ resting)
    (hpx : (st.orders o).priceCents ≠ kEmptyPrice) {qty : Shares}
    (hqty : ¬ qty ≥ (st.orders o).sharesRemaining) :
    (st.executeOrder o qty).1 = 0 ∧
      st.Update (st.executeOrder o qty).2 used free free resting resting rungs rungs
        (orderData (reduced st.orders o ((st.orders o).sharesRemaining - qty))) := by
  obtain ⟨l, lvl, front, behind, r, hrungs, hprice⟩ := exists_place h ho
  rw [← hprice] at hpx
  have hfind := h.findLevel_eq_some hfit hrungs hpx
  have hexecute : st.executeOrder o qty =
      (0, { st with orders := reduced st.orders o ((st.orders o).sharesRemaining - qty) }.setLevels
        (Function.update st.levels lvl { st.levels lvl with
          totalShares := (st.levels lvl).totalShares - qty.toUInt64 })) := by
    rw [hprice] at hfind
    unfold executeOrder
    simp only [hfind, if_neg hqty, Order.reduce, Bool.false_eq_true, ↓reduceIte]
    rfl
  obtain ⟨s, hs⟩ : ∃ s, (st.orders o).side = s := ⟨_, rfl⟩
  rw [hs] at hrungs
  have hside := h.sides s
  rw [hrungs] at hside
  have hqueue := hside.queues (lvl, front ++ o :: behind) (by simp)
  have hframe : ∀ q, q ≠ o →
      reduced st.orders o ((st.orders o).sharesRemaining - qty) q = st.orders q :=
    fun q hq => Function.update_of_ne hq _ _
  -- the shares that are left and those of the level do not wrap around
  have hle : qty ≤ (st.orders o).sharesRemaining := by
    have hlt : ¬ (st.orders o).sharesRemaining.toNat ≤ qty.toNat := hqty
    exact UInt32.le_iff_toNat_le.mpr (by omega)
  have hlvlrung : OnRung rungs lvl :=
    onRung_of_mem (s := s) (g := (lvl, front ++ o :: behind)) (by simp [hrungs])
  have hthreads := hside.toThreads.setRung (hqueue.deduct hle) rfl rfl rfl rfl fun g hg =>
    ⟨(h.apart hrungs g hg).1, fun p hp => hframe p fun he =>
      (h.apart hrungs g hg).2 p hp (by simp [he])⟩
  have hlevels : ∀ q, (Function.update st.levels lvl { st.levels lvl with
      totalShares := (st.levels lvl).totalShares - qty.toUInt64 } q).priceCents =
        (st.levels q).priceCents := by
    intro q
    by_cases hq : q = lvl
    · rw [hq, Function.update_self]
    · rw [Function.update_of_ne hq]
  rw [hexecute]
  refine ⟨rfl, ?_, ?_, rfl, rfl, rfl, fun q hq _ => hframe q fun he => hq (he ▸ ho),
    fun q _ hq => ?_⟩
  · have hrepresents := h.setRungs hthreads ?_ (fun _ _ => rfl) (fun s' _ => ?_)
      (fun s' hs' g hg => ?_) (fun p _ hps => ?_) h.nodup h.liveOrderCount
    · rw [← hrungs, Function.update_eq_self] at hrepresents
      exact hrepresents
    · rw [priced_congr fun g _ => hlevels g.1, hside.grouping]
      exact (ladder_onSide_congr reduced_price reduced_side).symm
    · exact onSide_congr fun p _ => reduced_side p
    · exact Function.update_of_ne (h.side_ne_slot hs' hg (hrungs ▸ by simp)) _ _
    · exact hframe p fun he => hps (he ▸ hs)
  · exact hpool.rewrite hused hlvlrung fun q => Iff.rfl
  · have hne : q ≠ lvl := fun he => hq (he ▸ hlvlrung)
    exact Function.update_of_ne hne _ _

/-- A fill for all the shares of the order takes it off the book. -/
theorem executeOrder_filled (h : st.book.Represents st.orders st.levels resting rungs)
    (hpool : st.levelPool.Represents free used) (hused : ∀ q, OnRung rungs q → used q)
    (hfit : ∀ s, (rungs s).length ≤ kPriceLevelMapCapacity)
    (hlen : ∀ s, ∀ g ∈ rungs s, g.2.length ≤ 4294967296) (ho : o ∈ resting)
    (hpx : (st.orders o).priceCents ≠ kEmptyPrice) {qty : Shares}
    (hqty : qty ≥ (st.orders o).sharesRemaining) :
    ∃ free' rungs', Retires (st.executeOrder o qty).1 rungs rungs' ∧
      st.Update (st.executeOrder o qty).2 used free free' resting
        (resting.filter fun p => p ≠ o) rungs rungs' (orderData (reduced st.orders o 0)) := by
  obtain ⟨l, lvl, front, behind, r, hrungs, hprice⟩ := exists_place h ho
  rw [← hprice] at hpx
  have hfind := h.findLevel_eq_some hfit hrungs hpx
  have hqueue := (h.sides (st.orders o).side).queues (lvl, front ++ o :: behind)
    (by rw [hrungs]; simp)
  have hdeduct := hqueue.deduct (UInt32.le_refl _)
  rw [UInt32.sub_self] at hdeduct
  have hunlink : Unlinked st lvl o front behind (PriceLevel.unlink { st.levels lvl with
      totalShares := (st.levels lvl).totalShares - (st.orders o).sharesRemaining.toUInt64 }
        (reduced st.orders o 0) o) := by
    have hdata := hdeduct.unlink_data { st.levels lvl with
      totalShares := (st.levels lvl).totalShares - (st.orders o).sharesRemaining.toUInt64 }
    obtain ⟨hpl, hsd, hnext, hprev⟩ := unlink_place { st.levels lvl with
      totalShares := (st.levels lvl).totalShares - (st.orders o).sharesRemaining.toUInt64 }
        (reduced st.orders o 0) o
    refine ⟨hdeduct.unlink_spent (by rw [Function.update_self]), hpl, hsd, hnext, hprev,
      fun q hq => ?_, fun q => ?_, fun q => ?_⟩
    · have hqo : q ≠ o := fun he => hq (by simp [he])
      rw [reduced, hdeduct.unlink_frame _ hq, Function.update_of_ne hqo]
    · exact (congrArg OrderData.priceCents (hdata q)).trans (reduced_price q)
    · exact (congrArg OrderData.side (hdata q)).trans (reduced_side q)
  have hexecute : st.executeOrder o qty = (st.putUnlinked lvl (PriceLevel.unlink
      { st.levels lvl with
        totalShares := (st.levels lvl).totalShares - (st.orders o).sharesRemaining.toUInt64 }
      (reduced st.orders o 0) o)).retireLevel (st.orders o).side lvl := by
    rw [hprice] at hfind
    unfold executeOrder
    simp only [hfind, if_pos hqty, Order.reduce, ↓reduceIte]
    simp [putUnlinked, setLevels, BookState.levels, modify, reduced]
  rw [hexecute]
  exact retireLevel_update h hpool hused hfit hlen hpx hrungs hunlink
    (funext fun q => hdeduct.unlink_data _ q)

end BookState

end ItchParser
