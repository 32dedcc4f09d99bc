import ItchParser.Engine.Agrees

/-!
# Rejected events leave the market state untouched

An add, execution, cancel or delete that is not accepted only counts. An add may get as far as an
instrument, a book and an order slot before it is rejected: the slot goes back to where it came from
in the free list, and an instrument or an empty book may stay behind.
-/

namespace ItchParser

open Ladder OrderBook Machine Market

/-- The statistics without the counters of rejections and locate mismatches. -/
def EngineStats.exceptRejections (s : EngineStats) : EngineStats :=
  { s with
    addRejectedPoolExhausted := 0
    addRejectedLevelPoolExhausted := 0
    duplicateAdds := 0
    locateMismatches := 0
    levelMissing := 0
    unknownOrderEvents := 0
    poolExhausted := 0 }

/-- A new order. -/
def Call.isAdd : Call → Bool
  | .addOrder _ _ _ _ _ _ _ _ => true
  | _ => false

/-- A replaced order. -/
def Call.isReplace : Call → Bool
  | .orderReplace _ _ _ _ _ _ => true
  | _ => false

namespace MatchingEngine

/-- The instrument of `l` is as it was, or an add has created it or its book. -/
def SameInstrument (e e' : MatchingEngine) (c : Call) (l : StockLocate) : Prop :=
  e'.instruments.slots l = e.instruments.slots l ∨
    (c.isAdd = true ∧ c.locate = l ∧ e'.instruments.slots l =
      some ((e.instruments.slots l).getD { locate := l }).ensureBook)

/-- What a rejected call leaves as it was. -/
structure Untouched (e e' : MatchingEngine) (c : Call) : Prop extends Intact e e' where
  freeOrders : e'.orderPool.freeList = e.orderPool.freeList
  freeLevels : e'.levelPool.freeList = e.levelPool.freeList
  stats : e'.stats.exceptRejections = e.stats.exceptRejections
  instruments : ∀ l, SameInstrument e e' c l

/-- An update of the statistics that only counts rejections and locate mismatches. -/
def CountsRejections (f : EngineStats → EngineStats) : Prop :=
  ∀ s, (f s).exceptRejections = s.exceptRejections

variable {e e' : MatchingEngine} {caps : Capacities} {m : Market}
  {arrival freeOrders freeLevels : List Ptr} {rungs : StockLocate → Side → List Rung}
  {locate : StockLocate} {id : OrderReferenceNumber} {qty : Shares} {c : Call}

/-- A mismatch may be counted as well. -/
theorem countsRejections_mismatch {f : EngineStats → EngineStats} (hf : CountsRejections f)
    (home locate : StockLocate) : CountsRejections fun s => f (s.countMismatch home locate) := by
  intro s
  rw [hf, EngineStats.countMismatch_eq]
  rfl

/-- A call that only counts. -/
theorem untouched_count {f : EngineStats → EngineStats} (hf : CountsRejections f) :
    Untouched e (e.count f) c :=
  ⟨intact_count f, rfl, rfl, hf _, fun _ => .inl rfl⟩

/-- Two engines with the same layout, index, levels and live orders. -/
theorem untouched_of_layout (h : e.Layout arrival [] freeOrders freeLevels rungs)
    (h' : e'.Layout arrival [] freeOrders freeLevels rungs)
    (horders : ∀ p ∈ arrival, e'.orders p = e.orders p) (hindex : e'.orderIndex = e.orderIndex)
    (hlevels : e'.levelPool = e.levelPool)
    (hstats : e'.stats.exceptRejections = e.stats.exceptRejections)
    (hinstruments : ∀ l, SameInstrument e e' c l) :
    Untouched e e' c :=
  ⟨intact_of_layout h h' horders hindex,
    h'.orderPool.freeList_eq.trans h.orderPool.freeList_eq.symm, by rw [hlevels], hstats,
    hinstruments⟩

/-! ## The handlers -/

/-- An order that is found is turned away for its price. -/
theorem reserved_of_reduceVerdict {live : List OrderData} {d : OrderData}
    (hfind : findIn live id = some d) (hv : reduceVerdict live id ≠ .accepted) :
    d.priceCents = kEmptyPrice := by
  by_contra hne
  refine hv ?_
  unfold reduceVerdict
  rw [hfind]
  exact if_neg hne

/-- E, C and X that are not accepted only count. -/
theorem Refines.reduceOrder_rejected (h : e.Refines caps m) (hfit : m.Fits)
    (accept : EngineStats → EngineStats) (hv : reduceVerdict m.live id ≠ .accepted) :
    ∃ f, CountsRejections f ∧
      e.reduceOrder locate id (fun st o => st.executeOrder o qty) accept = e.count f := by
  obtain ⟨arrival, _, _, _, h⟩ := h
  unfold MatchingEngine.reduceOrder
  cases hfind : e.findOrder id with
  | none => exact ⟨EngineStats.countUnknown, fun _ => rfl, rfl⟩
  | some o =>
      obtain ⟨ho, rfl, hm⟩ := h.find_some hfind
      obtain ⟨b, hbook⟩ := h.exists_book ho
      obtain ⟨hlevels, -⟩ := h.fits hfit (e.orders o).locate
      have hcounted := h.count fun s => s.countMismatch (e.orders o).locate locate
      have hbook' : (e.count fun s => s.countMismatch (e.orders o).locate locate).instruments.book
          (e.orders o).locate = some b := hbook
      have hpx := reserved_of_reduceVerdict hm hv
      simp only [hbook', BookState.executeOrder_missing (hcounted.book hbook') hlevels hpx,
        putBook_self hbook']
      exact ⟨_, countsRejections_mismatch (f := EngineStats.countLevelMissing) (fun _ => rfl) _ _,
        rfl⟩

/-- A delete that is not accepted only counts. -/
theorem Refines.onOrderDelete_rejected (h : e.Refines caps m) (hfit : m.Fits)
    (hv : reduceVerdict m.live id ≠ .accepted) :
    ∃ f, CountsRejections f ∧ e.onOrderDelete locate id = e.count f := by
  obtain ⟨arrival, _, _, _, h⟩ := h
  unfold MatchingEngine.onOrderDelete
  cases hfind : e.findOrder id with
  | none => exact ⟨EngineStats.countUnknown, fun _ => rfl, rfl⟩
  | some o =>
      obtain ⟨ho, rfl, hm⟩ := h.find_some hfind
      obtain ⟨b, hbook⟩ := h.exists_book ho
      obtain ⟨hlevels, -⟩ := h.fits hfit (e.orders o).locate
      have hcounted := h.count fun s => s.countMismatch (e.orders o).locate locate
      have hbook' : (e.count fun s => s.countMismatch (e.orders o).locate locate).instruments.book
          (e.orders o).locate = some b := hbook
      have hpx := reserved_of_reduceVerdict hm hv
      simp only [hbook', BookState.removeOrder_missing (hcounted.book hbook') hlevels hpx,
        putBook_self hbook', if_true]
      exact ⟨_, countsRejections_mismatch (f := EngineStats.countLevelMissing) (fun _ => rfl) _ _,
        rfl⟩

/-- The instruments after the lookup of an add. -/
theorem ensureBook_slots (im : InstrumentMap) (locate l : StockLocate) :
    ((im.getOrCreate locate).2.set locate (im.getOrCreate locate).1.ensureBook).slots l =
        im.slots l ∨
      (locate = l ∧ ((im.getOrCreate locate).2.set locate
        (im.getOrCreate locate).1.ensureBook).slots l =
          some ((im.slots l).getD { locate := l }).ensureBook) := by
  by_cases hl : l = locate
  · subst hl
    refine .inr ⟨rfl, ?_⟩
    unfold InstrumentMap.getOrCreate
    cases im.slots l with
    | none => exact Function.update_self _ _ _
    | some inst => exact Function.update_self _ _ _
  · refine .inl ?_
    unfold InstrumentMap.getOrCreate
    cases im.slots locate with
    | none => exact (Function.update_of_ne hl _ _).trans (Function.update_of_ne hl _ _)
    | some inst => exact Function.update_of_ne hl _ _

/-- An add that is not accepted leaves the market state untouched. -/
theorem Refines.onAddOrder_rejected (h : e.Refines caps m) (hfit : m.Fits) (bsi : BuySellIndicator)
    (px : Price) (ts : Timestamp) (mpid : MPID) (attributed : Bool)
    (hv : addVerdict caps m.live
      ⟨id, locate, px, qty, toSide bsi, ts, if attributed then mpid else MPID.blank⟩ ≠ .accepted) :
    Untouched e (e.onAddOrder locate id bsi qty px ts mpid attributed)
      (.addOrder locate id bsi qty px ts mpid attributed) := by
  obtain ⟨arrival, freeOrders, freeLevels, rungs, h⟩ := h
  unfold MatchingEngine.onAddOrder
  split
  · exact untouched_count fun _ => rfl
  · next hfind =>
      have hfresh : findIn m.live id = none := by
        rw [show (e.findOrder id).isSome = (m.find id).isSome from h.find_isSome] at hfind
        have hnone : m.find id = none := by simpa using hfind
        exact hnone
      obtain ⟨hensured, hbook⟩ := h.ensureBook locate
      by_cases hfull : caps.orders ≤ (m.know locate).live.length
      · obtain rfl := hensured.orders_full.mpr hfull
        simp only [h.orderPool.acquire_nil]
        exact untouched_of_layout h.toLayout (hensured.count _).toLayout (fun _ _ => rfl) rfl rfl
          rfl fun l => (ensureBook_slots e.instruments locate l).imp_right fun hl => ⟨rfl, hl⟩
      · obtain ⟨mem, rest, rfl⟩ := List.exists_cons_of_ne_nil fun he =>
          hfull (hensured.orders_full.mp he)
        simp only [h.orderPool.acquire_cons]
        have hconstructed := hensured.hold.construct (Order.create id locate px qty (toSide bsi) ts
          (if attributed then mpid else MPID.blank))
        have hlevels : LevelsFull caps m.live
            ⟨id, locate, px, qty, toSide bsi, ts, if attributed then mpid else MPID.blank⟩ := by
          by_contra hroom
          refine hv ?_
          unfold addVerdict
          simp only [hfresh, Option.isSome_none, Bool.false_eq_true, if_false]
          rw [if_neg (show ¬ caps.orders ≤ m.live.length from hfull), if_neg hroom]
        have hfresh' : ∀ p ∈ arrival, p ≠ mem := fun p hp he =>
          h.orderPool.not_used (p := mem) (by simp) (.inl (he ▸ hp))
        have hengine := hconstructed.place_full (hfit.know locate)
          (d := ⟨id, locate, px, qty, toSide bsi, ts, if attributed then mpid else MPID.blank⟩)
          (constructOrder_data _) hbook hlevels EngineStats.countDuplicate
          fun s =>
            if attributed then { s with addOrdersWithMpid := s.addOrdersWithMpid + 1 }
            else { s with addOrders := s.addOrders + 1 }
        refine Eq.mpr (congrArg (Untouched e · _) hengine) ?_
        refine untouched_of_layout h.toLayout (hconstructed.count _).releaseHeld.toLayout
          (fun p hp => ?_) rfl rfl rfl
          fun l => (ensureBook_slots e.instruments locate l).imp_right fun hl => ⟨rfl, hl⟩
        exact (Function.update_of_ne (hfresh' p hp) _ _).trans
          (Function.update_of_ne (hfresh' p hp) _ _)

/-! ## Runs -/

/-- A call that is not an add, turned away, only counts. -/
theorem Untouched.of_count (h : ∃ f, CountsRejections f ∧ e' = e.count f) : Untouched e e' c := by
  obtain ⟨f, hf, rfl⟩ := h
  exact untouched_count hf

/-- An order event that is not a replace and has a verdict other than `accepted`. -/
theorem Refines.step_rejected (h : e.Refines caps m) (hfit : m.Fits) {v : Verdict}
    (hv : verdict caps m.live c = some v) (hrejected : v ≠ .accepted)
    (hreplace : c.isReplace = false) : Untouched e (e.step c) c := by
  cases c with
  | addOrder locate id bsi qty px ts mpid attributed =>
      cases hv
      exact h.onAddOrder_rejected hfit bsi px ts mpid attributed hrejected
  | orderExecuted locate id execQty matchNo =>
      cases hv
      exact .of_count (h.reduceOrder_rejected hfit _ hrejected)
  | orderExecutedWithPrice locate id execQty matchNo printable execPx =>
      cases hv
      exact .of_count (h.reduceOrder_rejected hfit _ hrejected)
  | orderCancel locate id cancelledQty =>
      cases hv
      exact .of_count (h.reduceOrder_rejected hfit _ hrejected)
  | orderDelete locate id =>
      cases hv
      exact .of_count (h.onOrderDelete_rejected hfit hrejected)
  | orderReplace locate oldId newId newQty newPx ts => cases hreplace
  | _ => cases hv

/-- In every reachable state an add, execution, cancel or delete that adds to no counter of accepted
events leaves all but the counters of rejections as it was. -/
theorem rejected_untouched (oc lc : UInt64) (cs : List Call) (c : Call)
    (hcap : oc.toNat < 4294967296) (hroomy : ∀ pre, pre <+: cs → (after oc lc pre).Roomy)
    (hevent : c.isOrderEvent = true) (hreplace : c.isReplace = false)
    (hrejected : ((after oc lc cs).step c).stats.accepted = (after oc lc cs).stats.accepted) :
    Untouched (after oc lc cs) ((after oc lc cs).step c) c := by
  have hrefines := after_refines oc lc cs hcap hroomy
  have hfit := hrefines.fits (hroomy cs (List.prefix_refl _)) hcap
  obtain ⟨v, hv⟩ := Option.isSome_iff_exists.mp ((verdict_isSome ⟨oc.toNat, lc.toNat⟩ _ c).trans
    hevent)
  refine hrefines.step_rejected hfit hv (fun haccepted => ?_) hreplace
  rw [(step_refines hrefines hfit c).stats_eq, hrefines.stats_eq, accepted_step hv,
    if_pos haccepted] at hrejected
  omega

/-- The level pool is exhausted when an order for a new price comes in. -/
theorem rejected_untouched_sample :
    Untouched (after 4 1 [.addOrder 1 10 (ascii 'B') 300 1000000 1 MPID.blank false])
      ((after 4 1 [.addOrder 1 10 (ascii 'B') 300 1000000 1 MPID.blank false]).step
        (.addOrder 2 20 (ascii 'S') 50 2500000 2 MPID.blank false))
      (.addOrder 2 20 (ascii 'S') 50 2500000 2 MPID.blank false) :=
  rejected_untouched 4 1 _ _ (by decide) (fun pre _ => after_roomy 4 1 pre (by decide) (by decide))
    rfl rfl (by decide +kernel)

end MatchingEngine
end ItchParser
