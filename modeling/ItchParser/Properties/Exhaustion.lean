import ItchParser.Engine.Effects
import ItchParser.Properties.Reconstruction

/-!
# Exhausted pools lose events and nothing else

When a pool runs out the engine turns calls away. What it shows after that are the books of the
reference for the calls that took effect: the events that were turned away are missing, and a
replace that found no level counts as the delete of its old order. So the books stay in price-time
priority whatever the sizes of the pools.
-/

namespace ItchParser

open OrderBook Machine MatchingEngine

/-- The reference for the calls that took effect knows the live orders. -/
theorem stands_after (oc lc : UInt64) (cs : List Call) (hcap : oc.toNat < 4294967296)
    (hroomy : ∀ pre, pre <+: cs → (after oc lc pre).Roomy) :
    (run Reference.step Reference.empty ((create oc lc).effects cs)).Stands
      (Market.after ⟨oc.toNat, lc.toNat⟩ cs).live := by
  have hrun : ∀ pre, pre <+: cs → (after oc lc pre).Refines ⟨oc.toNat, lc.toNat⟩
      (run (Market.step ⟨oc.toNat, lc.toNat⟩) Market.empty pre) := fun pre hpre =>
    after_refines oc lc pre hcap fun pre' hpre' => hroomy pre' (hpre'.trans hpre)
  -- the calls that took effect edit the live orders as all calls do
  have hstands := reference_stands ((create oc lc).effects cs)
  rw [effects_eq hrun] at hstands ⊢
  rwa [show run liveStep [] _ = (Market.after ⟨oc.toNat, lc.toNat⟩ cs).live from
    (Market.run_live_effects _ Market.empty cs).symm] at hstands

/-- The books of a run with pools of any size are the books of the reference for the calls that the
statistics show to have taken effect. -/
theorem exhausted_books_refine_reference (oc lc : UInt64) (cs : List Call)
    (hcap : oc.toNat < 4294967296) (hprice : ∀ c ∈ cs, c.price? ≠ some kEmptyPrice)
    (hroomy : ∀ pre, pre <+: cs → (after oc lc pre).Roomy) :
    (∀ locate s, ((after oc lc cs).bookView locate s).map (fun v => (v.price, v.orders)) =
        (run Reference.step Reference.empty ((create oc lc).effects cs)).book locate s) ∧
      (∀ id, (after oc lc cs).orderOf id =
        (run Reference.step Reference.empty ((create oc lc).effects cs)).find id) ∧
      (after oc lc cs).stats.liveOrders =
        (run Reference.step Reference.empty ((create oc lc).effects cs)).orders.entries.length := by
  have hrefines := after_refines oc lc cs hcap hroomy
  have hstands := stands_after oc lc cs hcap hroomy
  refine ⟨fun locate s => ?_, fun id => ?_, ?_⟩
  · rw [hrefines.bookView_eq, List.map_map, hstands.book_eq (Market.noReserved_after _ hprice)]
    exact List.map_id _
  · rw [hrefines.orderOf_eq, hstands.find_eq]
    rfl
  · rw [hrefines.stats_eq, (Market.counts_after _ cs).liveOrders, ← hstands.entries_perm.length_eq,
      List.length_map]

/-- A session for three order slots and one level slot: the add of 20 and the replace of 11 find no
level, and the add of 15 finds no order slot. -/
def starvedSession : List Call :=
  [.addOrder 1 10 (ascii 'B') 300 1000000 1 MPID.blank false,
    .addOrder 1 11 (ascii 'B') 200 1000000 2 MPID.blank false,
    .addOrder 2 20 (ascii 'S') 50 2500000 3 MPID.blank false,
    .orderReplace 1 11 12 400 1000100 4,
    .orderCancel 1 10 100,
    .addOrder 1 13 (ascii 'B') 70 1000000 5 MPID.blank false,
    .addOrder 1 14 (ascii 'B') 80 1000000 6 MPID.blank false,
    .addOrder 1 15 (ascii 'B') 90 1000000 7 MPID.blank false]

/-- What is left of `starvedSession`. -/
def starvedEffects : List Call :=
  [.addOrder 1 10 (ascii 'B') 300 1000000 1 MPID.blank false,
    .addOrder 1 11 (ascii 'B') 200 1000000 2 MPID.blank false,
    .orderDelete 1 11,
    .orderCancel 1 10 100,
    .addOrder 1 13 (ascii 'B') 70 1000000 5 MPID.blank false,
    .addOrder 1 14 (ascii 'B') 80 1000000 6 MPID.blank false]

/-- A session that exhausts both pools. -/
theorem exhausted_books_refine_reference_sample :
    ((after 3 1 starvedSession).bookView 1 .buy).map (fun v => (v.price, v.orders)) =
      (run Reference.step Reference.empty starvedEffects).book 1 .buy := by
  have heffects : (create 3 1).effects starvedSession = starvedEffects := by decide +kernel
  rw [← heffects]
  exact (exhausted_books_refine_reference 3 1 starvedSession (by decide) (by decide) fun pre _ =>
    after_roomy 3 1 pre (by decide) (by decide)).1 1 .buy

end ItchParser
