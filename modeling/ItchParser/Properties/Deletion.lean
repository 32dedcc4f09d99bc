import ItchParser.Engine.Runs
import ItchParser.Market.Runs

/-!
# Taking live orders off the books

A live order should always come off its book with a delete. It does in every run whose states are
manageable, that is as long as no order rests at the price that the level map reserves for its empty
slots, no side outgrows its map and no level's order count wraps around.
-/

namespace ItchParser

open Ladder OrderBook Machine

/-- Without an order at the reserved price every order that is found has a level. -/
theorem verdict_ne_levelMissing {caps : Capacities} {live : List OrderData} {c : Call}
    (hprice : NoReserved live) : verdict caps live c ≠ some .levelMissing := by
  have hreduce : ∀ id, reduceVerdict live id ≠ .levelMissing := by
    intro id
    unfold reduceVerdict
    cases hfind : findIn live id with
    | none => simp
    | some d => simp [hprice d (mem_of_findIn hfind).1]
  have hadd : ∀ d, addVerdict caps live d ≠ .levelMissing := by
    intro d
    unfold addVerdict
    split
    · simp
    · split
      · simp
      · split <;> simp
  cases c with
  | addOrder locate id bsi qty px ts mpid attributed => simp [verdict, hadd]
  | orderReplace locate oldId newId newQty newPx ts =>
      simp only [verdict, replaceVerdict]
      cases hfind : findIn live oldId with
      | none => simp
      | some d =>
          simp only [if_neg (hprice d (mem_of_findIn hfind).1)]
          split
          · simp
          · split
            · simp
            · split <;> simp
  | _ => simp [verdict, hreduce]

namespace MatchingEngine

/-- In the state `e` every live order can be deleted, and no event has missed a level so far. -/
structure Deletable (e : MatchingEngine) : Prop where
  gone : ∀ locate id, (e.findOrder id).isSome → (e.onOrderDelete locate id).findOrder id = none
  unvisited : ∀ locate id o, e.findOrder id = some o →
    ∀ p ∈ ((e.onOrderDelete locate id).bookState
        ((e.onOrderDelete locate id).bookAt (e.orders o).locate)).forEachOrder,
      ((e.onOrderDelete locate id).orders p).orderId ≠ id
  liveOrders : ∀ locate id, (e.findOrder id).isSome →
    (e.onOrderDelete locate id).stats.liveOrders + 1 = e.stats.liveOrders
  levelMissing : e.stats.levelMissing = 0

/-- No level of a book is at the reserved price, outside of the level map or too full. -/
structure Manageable (e : MatchingEngine) : Prop where
  prices : ∀ locate s, ∀ v ∈ e.bookView locate s, v.price ≠ kEmptyPrice
  levels : e.Roomy
  orders : ∀ locate s, ∀ v ∈ e.bookView locate s, v.orders.length ≤ 4294967296

variable {e : MatchingEngine} {caps : Capacities} {m : Market}

/-- Every order is in a level with its price. -/
theorem Refines.noReserved (h : e.Refines caps m) (hmanageable : e.Manageable) :
    NoReserved m.live := by
  intro d hd hpx
  have hrest : d ∈ restingOn m.live d.locate d.side := List.mem_filter.mpr ⟨hd, by simp⟩
  obtain ⟨g, hg, hmem⟩ : ∃ g ∈ bookOf m.live d.locate d.side, d ∈ g.2 := exists_group hrest
  have hprice : d.priceCents = g.1 := (ladder_grouped _ _ hg).2 d hmem
  refine hmanageable.prices d.locate d.side (LevelView.ofGroup g) ?_ (hprice.symm.trans hpx)
  rw [h.bookView_eq]
  exact List.mem_map_of_mem hg

/-- A manageable engine keeps the limits of its books. -/
theorem Manageable.limits (h : e.Manageable) : e.WithinLimits :=
  ⟨h.levels, h.orders⟩

/-- `for_each_order` visits live orders only. -/
theorem Refines.visited_live (h : e.Refines caps m) (locate : StockLocate) :
    ∀ p ∈ (e.bookState (e.bookAt locate)).forEachOrder, orderData e.orders p ∈ m.live := by
  obtain ⟨_, _, _, _, hshows⟩ := h
  intro p hp
  rw [hshows.live]
  exact List.mem_map_of_mem
    (List.mem_filter.mp ((hshows.holds.forEachOrder_perm locate).mem_iff.mp hp)).1

/-- Every live order of a market can be deleted from its engine. -/
theorem Refines.deletable (h : e.Refines caps m) (hfit : m.Fits) (hprice : NoReserved m.live)
    (hcounts : m.Counts) (hmissing : m.stats.levelMissing = 0) : e.Deletable := by
  have hdeleted := h.onOrderDelete hfit
  -- what the market does: the order is gone, and one order less is live
  have hlive : ∀ locate id, (m.orderDelete locate id).live = without m.live id := by
    intro locate id
    have hroom : ¬ Rejects caps m.live (.orderDelete locate id) := fun h => h
    exact Market.step_live hprice hroom
  have hcounts' : ∀ locate id, (m.orderDelete locate id).Counts := fun _ _ => hcounts.orderDelete
  refine ⟨fun locate id hsome => ?_, fun locate id o ho p hp => ?_, fun locate id hsome => ?_, ?_⟩
  · rw [(hdeleted locate id).find_none, Market.find_eq, hlive]
    exact findIn_eq_none.mpr fun d hd => (mem_without.mp hd).2
  · have hvisited := (hdeleted locate id).visited_live _ p hp
    rw [hlive] at hvisited
    exact (mem_without.mp hvisited).2
  · rw [h.find_isSome] at hsome
    obtain ⟨d, hfind⟩ := Option.isSome_iff_exists.mp hsome
    obtain ⟨hd, rfl⟩ := Market.find_eq_some.mp hfind
    rw [(hdeleted locate d.orderId).stats_eq, h.stats_eq, (hcounts' locate d.orderId).liveOrders,
      hcounts.liveOrders, hlive]
    exact length_without m.distinct hd
  · rw [h.stats_eq, hmissing]

/-- Without an order at the reserved price no event misses a level. -/
theorem levelMissing_step (hprice : NoReserved m.live) (c : Call) :
    (m.step caps c).stats.levelMissing = m.stats.levelMissing := by
  show (m.step caps c).stats.events.levelMissing = m.stats.events.levelMissing
  cases hv : verdict caps m.live c with
  | none => rw [Market.step_events_other hv]
  | some v =>
      rw [Market.step_events hv]
      cases v with
      | levelMissing => exact absurd hv (verdict_ne_levelMissing hprice)
      | accepted =>
          cases c with
          | addOrder _ _ _ _ _ _ _ attributed => cases attributed <;> rfl
          | _ => rfl
      | orderPool => cases c <;> rfl
      | _ => rfl

/-- In a run whose states are all manageable every live order of every state can be deleted. -/
theorem deletable_after (oc lc : UInt64) (cs : List Call)
    (hmanageable : ∀ pre, pre <+: cs → (after oc lc pre).Manageable) :
    (after oc lc cs).Deletable := by
  have hrefines : ∀ pre, pre <+: cs → (after oc lc pre).Refines ⟨oc.toNat, lc.toNat⟩
      (Market.after ⟨oc.toNat, lc.toNat⟩ pre) := fun pre hpre =>
    after_refines_of_limits oc lc pre fun p hp => (hmanageable p (hp.trans hpre)).limits
  have hmissing : (Market.after ⟨oc.toNat, lc.toNat⟩ cs).stats.levelMissing = 0 := by
    refine prefix_induction (P := fun pre =>
      (Market.after ⟨oc.toNat, lc.toNat⟩ pre).stats.levelMissing = 0) cs rfl fun pre c hpre ih => ?_
    have hpre' : pre <+: cs := (List.prefix_append _ _).trans hpre
    rw [Market.after_concat, levelMissing_step ((hrefines pre hpre').noReserved
      (hmanageable pre hpre')), ih]
  have hend := hrefines cs (List.prefix_refl _)
  have hstate := hmanageable cs (List.prefix_refl _)
  exact hend.deletable (hend.fits_of_limits hstate.limits) (hend.noReserved hstate)
    (Market.counts_after _ cs) hmissing

/-- Calls that avoid the reserved price keep it off the books. -/
theorem manageable_after (oc lc : UInt64) (cs : List Call) (hcap : oc.toNat < 4294967296)
    (hprice : ∀ c ∈ cs, c.price? ≠ some kEmptyPrice)
    (hroomy : ∀ pre, pre <+: cs → (after oc lc pre).Roomy) : (after oc lc cs).Manageable := by
  have hend := after_refines oc lc cs hcap hroomy
  have hreserved := Market.noReserved_after ⟨oc.toNat, lc.toNat⟩ hprice
  obtain ⟨hlevels, horders⟩ := hend.limits (hroomy cs (List.prefix_refl _)) hcap
  refine ⟨fun locate s v hv => ?_, hlevels, horders⟩
  rw [hend.bookView_eq] at hv
  obtain ⟨g, hg, rfl⟩ := List.mem_map.mp hv
  obtain ⟨hne, hkeys⟩ := ladder_grouped _ _ hg
  obtain ⟨d, hd⟩ := List.exists_mem_of_ne_nil _ hne
  have hlive := (List.mem_filter.mp (mem_of_group hg hd)).1
  show g.1 ≠ kEmptyPrice
  rw [← hkeys d hd]
  exact hreserved d hlive

/-- A session with every kind of order event. -/
theorem deletable_after_sample : (after 4 4 sampleSession).Deletable :=
  deletable_after 4 4 sampleSession fun pre hpre =>
    manageable_after 4 4 pre (by decide)
      (fun c hc => (by decide : ∀ c ∈ sampleSession, c.price? ≠ some kEmptyPrice) c
        (hpre.subset hc)) fun p _ => sampleSession_roomy p

/-- An order at the reserved price cannot be deleted. -/
def reservedAdd : Call := .addOrder 1 7 (ascii 'B') 100 4294967295 1 MPID.blank false

/-- An order at the reserved price cannot be deleted. -/
theorem reservedAdd_not_deletable : ¬ (after 4 4 [reservedAdd]).Deletable := by
  intro h
  have hgone := h.gone 1 7 (by decide +kernel)
  revert hgone
  decide +kernel

end MatchingEngine
end ItchParser
