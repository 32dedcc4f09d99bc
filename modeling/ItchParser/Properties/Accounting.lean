import ItchParser.Engine.Runs
import ItchParser.Market.Runs

/-!
# Every order event is accounted once

Each order event adds one to exactly one of the counters that `accounted` sums up, whatever becomes
of it, and each rejection by a pool is counted by its reason as well.
-/

namespace ItchParser

open Machine EngineStats

namespace EngineStats

/-- The order events that were accepted, unknown or turned away by a pool. -/
def accounted (s : EngineStats) : Nat :=
  s.addOrders + s.addOrdersWithMpid + s.orderExecuted + s.orderExecutedWithPrice + s.orderCancel +
    s.orderDelete + s.orderReplace + s.unknownOrderEvents + s.poolExhausted

/-- The rejections by a pool, by reason. -/
def poolRejections (s : EngineStats) : Nat :=
  s.addRejectedPoolExhausted + s.addRejectedLevelPoolExhausted + s.replaceRejectedPoolExhausted

/-- The order events `n` are all accounted for. -/
structure Accounts (s : EngineStats) (n : Nat) : Prop where
  events : s.accounted = n
  rejections : s.poolExhausted = s.poolRejections

/-- Only the event counters are accounted for. -/
theorem accounts_events {s : EngineStats} {n : Nat} : s.events.Accounts n ↔ s.Accounts n :=
  ⟨fun h => ⟨h.events, h.rejections⟩, fun h => ⟨h.events, h.rejections⟩⟩

/-- Counting an event as accepted counts it neither as unknown nor as a rejection. -/
theorem Accounts.accept {s : EngineStats} {n : Nat} (h : s.Accounts n) {c : Call}
    (hc : c.isOrderEvent = true) : (c.accept s).Accounts (n + 1) := by
  have hevents : s.accepted + s.unknownOrderEvents + s.poolExhausted = n := h.events
  have hsame : (c.accept s).unknownOrderEvents = s.unknownOrderEvents ∧
      (c.accept s).poolExhausted = s.poolExhausted ∧
      (c.accept s).poolRejections = s.poolRejections := by
    cases c with
    | addOrder _ _ _ _ _ _ _ attributed => cases attributed <;> exact ⟨rfl, rfl, rfl⟩
    | _ => exact ⟨rfl, rfl, rfl⟩
  obtain ⟨hunknown, hpool, hreasons⟩ := hsame
  refine ⟨?_, by rw [hpool, hreasons, h.rejections]⟩
  show (c.accept s).accepted + (c.accept s).unknownOrderEvents + (c.accept s).poolExhausted = n + 1
  rw [accepted_accept hc, hunknown, hpool]
  omega

/-- Every verdict accounts for one event. -/
theorem Accounts.tally {s : EngineStats} {n : Nat} (h : s.Accounts n) {c : Call}
    (hc : c.isOrderEvent = true) (v : Verdict) :
    (v.tally c.accept c.pool s).Accounts (n + 1) := by
  have hevents := h.events
  have hrejections := h.rejections
  unfold accounted at hevents
  unfold poolRejections at hrejections
  cases v with
  | accepted => exact h.accept hc
  | unknown =>
      exact ⟨by simp only [accounted, Verdict.tally, countUnknown]; omega, hrejections⟩
  | duplicate =>
      exact ⟨by simp only [accounted, Verdict.tally, countDuplicate]; omega, hrejections⟩
  | levelMissing =>
      exact ⟨by simp only [accounted, Verdict.tally, countLevelMissing]; omega, hrejections⟩
  | levelPool =>
      refine ⟨?_, ?_⟩
      · simp only [accounted, Verdict.tally, countLevelPoolExhausted]
        omega
      · simp only [poolRejections, Verdict.tally, countLevelPoolExhausted]
        omega
  | orderPool =>
      have hadd : (countAddPool s).Accounts (n + 1) := by
        refine ⟨?_, ?_⟩
        · simp only [accounted, countAddPool]
          omega
        · simp only [poolRejections, countAddPool]
          omega
      have hreplace : (countReplacePool s).Accounts (n + 1) := by
        refine ⟨?_, ?_⟩
        · simp only [accounted, countReplacePool]
          omega
        · simp only [poolRejections, countReplacePool]
          omega
      cases c with
      | orderReplace _ _ _ _ _ _ => exact hreplace
      | _ => exact hadd

end EngineStats

/-- One call accounts for itself. -/
theorem Market.accounts_step {caps : Capacities} {m : Market} {n : Nat} (h : m.stats.Accounts n)
    (c : Call) :
    (m.step caps c).stats.Accounts (n + if c.isOrderEvent = true then 1 else 0) := by
  rw [← accounts_events] at h ⊢
  cases hv : verdict caps m.live c with
  | none =>
      have hc : c.isOrderEvent = false := by rw [← verdict_isSome caps m.live, hv]; rfl
      rw [step_events_other hv, hc]
      exact h
  | some v =>
      have hc : c.isOrderEvent = true := by rw [← verdict_isSome caps m.live, hv]; rfl
      rw [step_events hv, if_pos hc]
      exact h.tally hc v

/-- A market accounts for every order event. -/
theorem Market.accounts_after (caps : Capacities) (cs : List Call) :
    (Market.after caps cs).stats.Accounts (cs.countP Call.isOrderEvent) := by
  refine prefix_induction (P := fun pre =>
    (Market.after caps pre).stats.Accounts (pre.countP Call.isOrderEvent)) cs ⟨rfl, rfl⟩ ?_
  intro pre c _ ih
  rw [Market.after_concat, List.countP_append, List.countP_singleton]
  exact Market.accounts_step ih c

namespace MatchingEngine

/-- In every run the order events are the accepted ones, the unknown ones and the ones turned away
by a pool, and the last are the sum over the three reasons. -/
theorem events_accounted (oc lc : UInt64) (cs : List Call) (hcap : oc.toNat < 4294967296)
    (hroomy : ∀ pre, pre <+: cs → (after oc lc pre).Roomy) :
    cs.countP Call.isOrderEvent = (after oc lc cs).stats.accounted ∧
      (after oc lc cs).stats.poolExhausted = (after oc lc cs).stats.poolRejections := by
  rw [(after_refines oc lc cs hcap hroomy).stats_eq]
  obtain ⟨hevents, hrejections⟩ := Market.accounts_after ⟨oc.toNat, lc.toNat⟩ cs
  exact ⟨hevents.symm, hrejections⟩

/-- With a single level slot two of the six order events find no level, and one is unknown then. -/
theorem events_accounted_sample :
    sampleSession.countP Call.isOrderEvent = (after 4 1 sampleSession).stats.accounted ∧
      (after 4 1 sampleSession).stats.poolExhausted =
        (after 4 1 sampleSession).stats.poolRejections :=
  events_accounted 4 1 sampleSession (by decide)
    fun pre _ => after_roomy 4 1 pre (by decide) (by decide)

end MatchingEngine
end ItchParser
