import ItchParser.Engine.Runs
import ItchParser.Market.Effects

/-!
# The calls that an engine carries out

The statistics show which calls of a run took effect. Whatever became of the others, the live orders
of the engine are what these calls make of the live orders at the start.
-/

namespace ItchParser

open OrderBook Machine Market

namespace MatchingEngine

variable {e : MatchingEngine} {caps : Capacities} {m : Market} {cs : List Call}

/-- The calls of a run that took effect. -/
def effects (e : MatchingEngine) (cs : List Call) : List Call :=
  outputs step (fun e c => (c.effect e.stats (e.step c).stats).toList) e cs

/-- An engine and its market see the same calls take effect. -/
theorem effects_eq (hrun : ∀ pre, pre <+: cs →
      (run step e pre).Refines caps (run (Market.step caps) m pre)) :
    e.effects cs = Market.effects caps m cs := by
  refine outputs_congr (R := fun e m => e.Refines caps m) cs hrun fun pre c hpre h => ?_
  have hnext := hrun (pre ++ [c]) hpre
  rw [run_concat, run_concat] at hnext
  rw [h.stats_eq, hnext.stats_eq]

/-- A later part of a run of a fresh engine. -/
theorem refines_from (oc lc : UInt64) {pre rest : List Call} (hcap : oc.toNat < 4294967296)
    (hroomy : ∀ cs, cs <+: pre ++ rest → (after oc lc cs).Roomy) :
    ∀ mid, mid <+: rest → (run step (after oc lc pre) mid).Refines ⟨oc.toNat, lc.toNat⟩
      (run (Market.step ⟨oc.toNat, lc.toNat⟩) (Market.after ⟨oc.toNat, lc.toNat⟩ pre) mid) := by
  intro mid hmid
  have hpre : pre ++ mid <+: pre ++ rest := (List.prefix_append_right_inj _).mpr hmid
  have hrefines := after_refines oc lc (pre ++ mid) hcap fun cs hcs => hroomy cs (hcs.trans hpre)
  rwa [after, run_append, run_append] at hrefines

end MatchingEngine
end ItchParser
