import ItchParser.Engine.Runs
import ItchParser.Market.Runs
import ItchParser.Reference

/-!
# The engine rebuilds the books

A run of a fresh engine ends with the books of the reference. No pool may be exhausted on the way,
no price may be the one that the level map reserves, and no side of a book may outgrow its map.
-/

namespace ItchParser

open OrderBook Machine MatchingEngine

/-- The aggregates of a level are exact as long as there are fewer than `2^32` orders. -/
theorem LevelView.aggregates {g : Price × List OrderData} (hlen : g.2.length < 4294967296) :
    (LevelView.ofGroup g).totalShares.toNat =
        ((LevelView.ofGroup g).orders.map fun d => d.sharesRemaining.toNat).sum ∧
      (LevelView.ofGroup g).orderCount.toNat = (LevelView.ofGroup g).orders.length := by
  have hsum : ∀ ds : List OrderData,
      (ds.map fun d => d.sharesRemaining.toNat).sum ≤ ds.length * 4294967295 := by
    intro ds
    induction ds with
    | nil => simp
    | cons d ds ih =>
        have hd := d.sharesRemaining.toNat_lt
        simp only [List.map_cons, List.sum_cons, List.length_cons]
        omega
  have hg := hsum g.2
  refine ⟨?_, ?_⟩
  · show (UInt64.ofNat _).toNat = _
    rw [UInt64.toNat_ofNat']
    exact Nat.mod_eq_of_lt (by omega)
  · show (UInt32.ofNat _).toNat = _
    rw [UInt32.toNat_ofNat']
    exact Nat.mod_eq_of_lt hlen

/-- The reference of a run without rejections. -/
theorem reference_stands (cs : List Call) :
    (run Reference.step Reference.empty cs).Stands (run liveStep [] cs) := by
  refine prefix_induction (P := fun pre =>
    (run Reference.step Reference.empty pre).Stands (run liveStep [] pre)) cs
    ⟨fun _ => rfl, List.Pairwise.nil, fun d hd => by cases hd⟩ fun pre c _ ih => ?_
  rw [run_concat, run_concat]
  exact ih.step c

/-- The engine's books are the reference's books: the same prices best first, at each price the same
orders in order of arrival, with exact aggregates, and the index finds the same orders. -/
theorem books_refine_reference (oc lc : UInt64) (cs : List Call) (hcap : oc.toNat < 4294967296)
    (hpool : (after oc lc cs).stats.poolExhausted = 0)
    (hprice : ∀ c ∈ cs, c.price? ≠ some kEmptyPrice)
    (hroomy : ∀ pre, pre <+: cs → (after oc lc pre).Roomy) :
    (∀ locate s, ((after oc lc cs).bookView locate s).map (fun v => (v.price, v.orders)) =
        (run Reference.step Reference.empty cs).book locate s) ∧
      (∀ locate s, ∀ v ∈ (after oc lc cs).bookView locate s,
        v.totalShares.toNat = (v.orders.map fun d => d.sharesRemaining.toNat).sum ∧
          v.orderCount.toNat = v.orders.length) ∧
      (∀ id, (after oc lc cs).orderOf id = (run Reference.step Reference.empty cs).find id) ∧
      (after oc lc cs).stats.liveOrders =
        (run Reference.step Reference.empty cs).orders.entries.length := by
  have hrefines := after_refines oc lc cs hcap hroomy
  rw [hrefines.stats_eq] at hpool
  obtain ⟨hlive, hreserved⟩ := Market.after_live hprice hpool
  have hstands := reference_stands cs
  rw [← hlive] at hstands
  refine ⟨fun locate s => ?_, fun locate s v hv => ?_, fun id => ?_, ?_⟩
  · rw [hrefines.bookView_eq, List.map_map, hstands.book_eq hreserved]
    exact List.map_id _
  · rw [hrefines.bookView_eq] at hv
    obtain ⟨g, hg, rfl⟩ := List.mem_map.mp hv
    exact LevelView.aggregates ((length_group_le hg).trans_lt (hrefines.length_le.trans_lt hcap))
  · rw [hrefines.orderOf_eq, hstands.find_eq]
    rfl
  · rw [hrefines.stats_eq, (Market.counts_after _ cs).liveOrders, ← hstands.entries_perm.length_eq,
      List.length_map]

/-- The replaced order is the better bid, the order at the front keeps its place. -/
theorem books_refine_reference_sample :
    ((after 4 4 sampleSession).bookView 1 .buy).map (fun v => (v.price, v.orders)) =
      [(1000100, [⟨12, 1, 1000100, 400, .buy, 4, MPID.blank⟩]),
        (1000000, [⟨10, 1, 1000000, 200, .buy, 1, MPID.blank⟩])] :=
  ((books_refine_reference 4 4 sampleSession (by decide) (by decide +kernel) (by decide)
    fun pre _ => sampleSession_roomy pre).1 1 .buy).trans (by decide +kernel)

end ItchParser
