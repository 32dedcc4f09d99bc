import ItchParser.Engine.Runs
import ItchParser.Market.Runs
import ItchParser.Market.Tally

/-!
# The pool sizes do not matter as long as there is room

A run that exhausts no pool is the same run with any pools that hold its peaks. A replace takes the
new slot before it gives the old one back, so the order pool needs one slot more than the peak.
-/

namespace ItchParser

open Machine MatchingEngine

namespace Market

variable {caps caps' : Capacities} {m : Market} {d : OrderData} {c : Call} {cs pre : List Call}
  {accept : EngineStats → EngineStats}

/-- With room in both, the capacities make no difference. -/
theorem place_caps (hfresh : m.find d.orderId = none) (hroom : ¬ LevelsFull caps m.live d)
    (hroom' : ¬ LevelsFull caps' m.live d) :
    m.place caps' d accept = m.place caps d accept := by
  rw [place_accepted hfresh hroom, place_accepted hfresh hroom']

/-- Where neither capacity is in the way, they do the same. -/
theorem step_caps (hroom : ¬ Rejects caps m.live c) (hroom' : ¬ Rejects caps' m.live c) :
    m.step caps' c = m.step caps c := by
  cases c with
  | addOrder locate id bsi qty px ts mpid attributed =>
      simp only [Market.step, Market.addOrder, find_eq]
      cases hfind : findIn m.live id with
      | some d => rfl
      | none =>
          obtain ⟨horders, hlevels⟩ := not_or.mp fun h => hroom ⟨hfind, h⟩
          obtain ⟨horders', hlevels'⟩ := not_or.mp fun h => hroom' ⟨hfind, h⟩
          show (if caps'.orders ≤ m.live.length then _ else _) =
            if caps.orders ≤ m.live.length then _ else _
          rw [if_neg horders, if_neg horders']
          exact place_caps (m := m.know locate) hfind hlevels hlevels'
  | orderReplace locate oldId newId newQty newPx ts =>
      simp only [Market.step, Market.orderReplace, find_eq, count_live]
      cases hold : findIn m.live oldId with
      | none => rfl
      | some d =>
          by_cases hnew : (findIn m.live newId).isSome
          · simp only [hnew, if_true]
          have hnone : findIn m.live newId = none := by simpa using hnew
          obtain ⟨horders, hlevels⟩ := not_or.mp fun h => hroom ⟨d, hold, hnone, h⟩
          obtain ⟨horders', hlevels'⟩ := not_or.mp fun h => hroom' ⟨d, hold, hnone, h⟩
          by_cases hpx : d.priceCents = OrderBook.kEmptyPrice
          · simp only [hnew, horders, horders', hpx, if_true, if_false, Bool.false_eq_true]
          have hfresh : findIn (without m.live d.orderId) newId = none :=
            findIn_eq_none.mpr fun x hx => findIn_eq_none.mp hnone x (mem_without.mp hx).1
          simp only [hnew, horders, horders', hpx, if_false, Bool.false_eq_true]
          refine place_caps ?_ ?_ ?_
          · exact hfresh
          · exact fun h => hlevels ⟨hpx, h⟩
          · exact fun h => hlevels' ⟨hpx, h⟩
  | _ => rfl

/-- The peaks of a run are not lower than those of its prefixes. -/
theorem peak_mono (hpre : pre <+: cs) :
    (after caps pre).stats.peakLiveOrders ≤ (after caps cs).stats.peakLiveOrders ∧
      (after caps pre).stats.peakLiveLevels ≤ (after caps cs).stats.peakLiveLevels :=
  ⟨run_mono (fun m : Market => m.stats.peakLiveOrders) (fun m c => (peak_le_step m c).1) hpre,
    run_mono (fun m : Market => m.stats.peakLiveLevels) (fun m c => (peak_le_step m c).2) hpre⟩

/-- `caps` holds everything that was live at any time in a run, and one order more. -/
structure Holds (caps : Capacities) (m : Market) : Prop where
  orders : m.stats.peakLiveOrders + 1 ≤ caps.orders
  levels : m.stats.peakLiveLevels ≤ caps.levels

/-- There is room for one more order. -/
theorem Holds.length_lt (h : Holds caps m) (hcounts : m.Counts) : m.live.length < caps.orders := by
  have horders := h.orders
  have hpeak := hcounts.peakOrders
  rw [hcounts.liveOrders] at hpeak
  omega

/-- There are no more levels than slots. -/
theorem Holds.levelCount_le (h : Holds caps m) (hcounts : m.Counts) :
    levelCount m.live ≤ caps.levels := by
  rw [← hcounts.liveLevels]
  exact hcounts.peakLevels.trans h.levels

/-- An order that is on its book in the end did find a level for it. -/
theorem not_levelsFull {live : List OrderData} (h : levelCount (live ++ [d]) ≤ caps.levels) :
    ¬ LevelsFull caps live d := by
  rintro ⟨hopens, hfull⟩
  rw [levelCount_append, if_pos hopens] at h
  omega

/-- A call that was not rejected is not rejected either where there is room for the peaks. -/
theorem Holds.not_rejects (h : Holds caps' m) (h' : Holds caps' (m.step caps c))
    (hcounts : m.Counts) (hlive : (m.step caps c).live = liveStep m.live c) :
    ¬ Rejects caps' m.live c := by
  have hlevels := h'.levelCount_le (hcounts.step c)
  have horders := h.length_lt hcounts
  rw [hlive] at hlevels
  cases c with
  | addOrder locate id bsi qty px ts mpid attributed =>
      rintro ⟨hfind, hfull | hfull⟩
      · omega
      · simp only [liveStep, hfind, Option.isSome_none, Bool.false_eq_true, if_false] at hlevels
        exact not_levelsFull hlevels hfull
  | orderReplace locate oldId newId newQty newPx ts =>
      rintro ⟨d, hold, hnew, hfull | ⟨-, hfull⟩⟩
      · omega
      · obtain ⟨-, rfl⟩ := mem_of_findIn hold
        simp only [liveStep, hold, hnew, Option.isSome_none, Bool.false_eq_true, if_false]
          at hlevels
        exact not_levelsFull hlevels hfull
  | _ => exact id

/-- With room for the peaks, every capacity gives the same run. -/
theorem after_caps (hprice : ∀ c ∈ cs, c.price? ≠ some OrderBook.kEmptyPrice)
    (hpool : (after caps cs).stats.poolExhausted = 0) (hroom : Holds caps' (after caps cs)) :
    after caps' cs = after caps cs := by
  have hholds : ∀ pre, pre <+: cs → Holds caps' (after caps pre) := fun pre hpre =>
    ⟨(Nat.add_le_add_right (peak_mono hpre).1 1).trans hroom.orders,
      (peak_mono hpre).2.trans hroom.levels⟩
  refine prefix_induction (P := fun pre => after caps' pre = after caps pre) cs rfl
    fun pre c hpre ih => ?_
  have hpre' : pre <+: cs := (List.prefix_append _ _).trans hpre
  have hreserved : NoReserved (after caps pre).live :=
    (after_live (fun c hc => hprice c (hpre'.subset hc))
      (Nat.le_zero.mp ((poolExhausted_mono hpre').trans_eq hpool))).2
  have hnot := Market.not_rejects hpool hpre
  have hstep := hholds _ hpre
  rw [after_concat] at hstep
  rw [after_concat, after_concat, ih]
  exact step_caps hnot
    ((hholds pre hpre').not_rejects hstep (counts_after caps pre) (step_live hreserved hnot))

end Market

namespace MatchingEngine

/-- A run that exhausts no pool ends the same with any pools that hold its peaks: the same
statistics, the same books and the same indexed orders. -/
theorem headroom (oc lc oc' lc' : UInt64) (cs : List Call) (hcap : oc.toNat < 4294967296)
    (hprice : ∀ c ∈ cs, c.price? ≠ some OrderBook.kEmptyPrice)
    (hroomy : ∀ pre, pre <+: cs → (after oc lc pre).Roomy)
    (hpool : (after oc lc cs).stats.poolExhausted = 0)
    (horders : (after oc lc cs).stats.peakLiveOrders + 1 ≤ oc'.toNat)
    (hlevels : (after oc lc cs).stats.peakLiveLevels ≤ lc'.toNat) :
    (after oc' lc' cs).stats.poolExhausted = 0 ∧
      (after oc' lc' cs).stats = (after oc lc cs).stats ∧
      (∀ locate s, (after oc' lc' cs).bookView locate s = (after oc lc cs).bookView locate s) ∧
      ∀ id, (after oc' lc' cs).orderOf id = (after oc lc cs).orderOf id := by
  have hrefines : ∀ pre, pre <+: cs → (after oc lc pre).Refines ⟨oc.toNat, lc.toNat⟩
      (Market.after ⟨oc.toNat, lc.toNat⟩ pre) := fun pre hpre =>
    after_refines oc lc pre hcap fun p hp => hroomy p (hp.trans hpre)
  have hfirst := hrefines cs (List.prefix_refl _)
  rw [hfirst.stats_eq] at hpool horders hlevels
  -- the runs of the market are equal at every prefix, so the second engine never gets too large
  have hsame : ∀ pre, pre <+: cs → Market.after ⟨oc'.toNat, lc'.toNat⟩ pre =
      Market.after ⟨oc.toNat, lc.toNat⟩ pre := fun pre hpre =>
    Market.after_caps (fun c hc => hprice c (hpre.subset hc))
      (Nat.le_zero.mp ((Market.poolExhausted_mono hpre).trans_eq hpool))
      ⟨(Nat.add_le_add_right (Market.peak_mono hpre).1 1).trans horders,
        (Market.peak_mono hpre).2.trans hlevels⟩
  have hsecond : (after oc' lc' cs).Refines ⟨oc'.toNat, lc'.toNat⟩
      (Market.after ⟨oc'.toNat, lc'.toNat⟩ cs) := by
    refine run_refines (create_refines oc' lc') cs fun pre hpre _ => ?_
    rw [show run (Market.step ⟨oc'.toNat, lc'.toNat⟩) Market.empty pre = _ from hsame pre hpre]
    exact (hrefines pre hpre).fits (hroomy pre hpre) hcap
  rw [hsame cs (List.prefix_refl _)] at hsecond
  refine ⟨?_, ?_, fun locate s => ?_, fun id => ?_⟩
  · rw [hsecond.stats_eq, hpool]
  · rw [hsecond.stats_eq, hfirst.stats_eq]
  · rw [hsecond.bookView_eq, hfirst.bookView_eq]
  · rw [hsecond.orderOf_eq, hfirst.orderOf_eq]

/-- The sample session never has more than three live orders on three levels. -/
theorem headroom_sample :
    (after 4 3 sampleSession).stats.poolExhausted = 0 ∧
      (after 4 3 sampleSession).stats = (after 9 9 sampleSession).stats ∧
      (∀ locate s, (after 4 3 sampleSession).bookView locate s =
        (after 9 9 sampleSession).bookView locate s) ∧
      ∀ id, (after 4 3 sampleSession).orderOf id = (after 9 9 sampleSession).orderOf id :=
  headroom 9 9 4 3 sampleSession (by decide) (by decide)
    (fun pre _ => after_roomy 9 9 pre (by decide) (by decide)) (by decide +kernel)
    (by decide +kernel) (by decide +kernel)

end MatchingEngine
end ItchParser
