import ItchParser.Market.Runs

/-!
# The calls that take effect

A call that is turned away leaves the live orders alone. The exception is a replace that finds no
slot for its level: by then the old order is gone, so it acts as a delete. `Call.effect` reads the
call that took effect off the statistics before and after, and a run edits the live orders as
`liveStep` does on the calls that took effect. This holds for all pools and all prices.
-/

namespace ItchParser

open OrderBook Machine EngineStats

/-- What is left of a call that finds no slot for its level. -/
def Call.fallback : Call → Option Call
  | .orderReplace locate oldId _ _ _ _ => some (.orderDelete locate oldId)
  | _ => none

/-- The call that takes effect when the verdict on `c` is known. -/
def Verdict.effect (c : Call) : Verdict → Option Call
  | .accepted => some c
  | .levelPool => c.fallback
  | _ => none

/-- The call that took effect, by the statistics before and after the call `c`. -/
def Call.effect (before after : EngineStats) (c : Call) : Option Call :=
  if c.isOrderEvent = false ∨ before.accepted < after.accepted then some c
  else if before.addRejectedLevelPoolExhausted < after.addRejectedLevelPoolExhausted then
    c.fallback
  else none

/-- The live orders after what took effect. -/
def liveEffect (live : List OrderData) (effect : Option Call) : List OrderData :=
  effect.elim live (liveStep live)

namespace Market

variable {caps : Capacities} {m : Market} {d : OrderData} {c : Call} {v : Verdict}
  {id newId : OrderReferenceNumber} {qty : Shares} {newPx : Price} {ts : Timestamp}
  {locate : StockLocate}

/-! ## The verdict decides -/

/-- An order is added when it is accepted. -/
theorem addOrder_live_verdict (attributed : Bool) : (m.addOrder caps d attributed).live =
    if addVerdict caps m.live d = .accepted then m.live ++ [d] else m.live := by
  unfold Market.addOrder addVerdict
  rw [find_eq]
  cases hfind : findIn m.live d.orderId with
  | some x => rfl
  | none =>
      simp only [Option.isSome_none, Bool.false_eq_true, if_false]
      by_cases hfull : caps.orders ≤ m.live.length
      · rw [if_pos hfull, if_pos (show caps.orders ≤ (m.know d.locate).live.length from hfull)]
        rfl
      rw [if_neg hfull, if_neg (show ¬ caps.orders ≤ (m.know d.locate).live.length from hfull)]
      by_cases hlevels : LevelsFull caps m.live d
      · rw [if_pos hlevels, place_rejected (m := m.know d.locate) hfind hlevels]
        rfl
      · rw [if_neg hlevels, place_accepted (m := m.know d.locate) hfind hlevels]
        rfl

/-- An order is reduced when the event is accepted. -/
theorem reduceOrder_live_verdict (accept : EngineStats → EngineStats) :
    (m.reduceOrder locate id qty accept).live =
      if reduceVerdict m.live id = .accepted then reduceIn m.live id qty else m.live := by
  unfold Market.reduceOrder reduceVerdict reduceIn
  rw [find_eq]
  cases hfind : findIn m.live id with
  | none => rfl
  | some d =>
      obtain ⟨-, rfl⟩ := mem_of_findIn hfind
      by_cases hpx : d.priceCents = kEmptyPrice
      · simp only [hpx, if_true]
        rfl
      · simp only [hpx, if_false, if_true]
        split <;> rfl

/-- An order is deleted when the event is accepted. -/
theorem orderDelete_live_verdict : (m.orderDelete locate id).live =
    if reduceVerdict m.live id = .accepted then without m.live id else m.live := by
  unfold Market.orderDelete reduceVerdict
  rw [find_eq]
  cases hfind : findIn m.live id with
  | none => rfl
  | some d =>
      obtain ⟨-, rfl⟩ := mem_of_findIn hfind
      by_cases hpx : d.priceCents = kEmptyPrice
      · simp only [hpx, if_true]
        rfl
      · simp only [hpx, if_false, if_true]
        rfl

/-- A replace adds the new order, or only takes the old one off, or does nothing. -/
theorem orderReplace_live_verdict : (m.orderReplace caps locate id newId qty newPx ts).live =
    liveEffect m.live ((replaceVerdict caps m.live id newId qty newPx ts).effect
      (.orderReplace locate id newId qty newPx ts)) := by
  unfold Market.orderReplace replaceVerdict
  rw [find_eq]
  cases hold : findIn m.live id with
  | none => rfl
  | some d =>
      obtain ⟨-, rfl⟩ := mem_of_findIn hold
      simp only [count_live, find_eq]
      by_cases hnew : (findIn m.live newId).isSome
      · simp only [hnew, if_true]
        rfl
      simp only [hnew, Bool.false_eq_true, if_false]
      by_cases hfull : caps.orders ≤ m.live.length
      · simp only [hfull, if_true]
        rfl
      simp only [hfull, if_false]
      by_cases hpx : d.priceCents = kEmptyPrice
      · simp only [hpx, if_true]
        rfl
      simp only [hpx, if_false]
      -- the new order is placed when the old one is already off the book
      have hnone : findIn m.live newId = none := by simpa using hnew
      have hfresh : findIn (without m.live d.orderId) newId = none :=
        findIn_eq_none.mpr fun x hx => findIn_eq_none.mp hnone x (mem_without.mp hx).1
      by_cases hlevels :
          LevelsFull caps (without m.live d.orderId) (replacement d newId qty newPx ts)
      · rw [if_pos hlevels]
        rw [place_rejected]
        · rfl
        · exact hfresh
        · exact hlevels
      · rw [if_neg hlevels]
        refine (place_live hfresh hlevels).trans ?_
        simp only [Verdict.effect, liveEffect, Option.elim_some, liveStep, hold, hnone,
          Option.isSome_none, Bool.false_eq_true, if_false]
        rfl

/-- Without a fallback a call takes effect or does nothing. -/
theorem liveEffect_eq (live : List OrderData) (v : Verdict) (hc : c.fallback = none) :
    liveEffect live (v.effect c) = if v = .accepted then liveStep live c else live := by
  cases v with
  | levelPool => exact congrArg (liveEffect live) hc
  | _ => rfl

/-- An accepted order has a fresh id. -/
theorem findIn_of_addVerdict (hv : addVerdict caps m.live d = .accepted) :
    findIn m.live d.orderId = none := by
  unfold addVerdict at hv
  split at hv
  · cases hv
  · next hfind => simpa using hfind

/-- An order event edits the live orders as its verdict says. -/
theorem step_live_verdict (hv : verdict caps m.live c = some v) :
    (m.step caps c).live = liveEffect m.live (v.effect c) := by
  cases c with
  | addOrder locate id bsi qty px ts mpid attributed =>
      cases hv
      rw [liveEffect_eq _ _ rfl]
      refine (addOrder_live_verdict attributed).trans (ite_congr rfl (fun haccepted => ?_)
        fun _ => rfl)
      have hfresh : findIn m.live id = none := findIn_of_addVerdict haccepted
      rw [liveStep, hfresh]
      rfl
  | orderExecuted locate id execQty matchNo =>
      cases hv
      rw [liveEffect_eq _ _ rfl]
      exact reduceOrder_live_verdict _
  | orderExecutedWithPrice locate id execQty matchNo printable execPx =>
      cases hv
      rw [liveEffect_eq _ _ rfl]
      exact reduceOrder_live_verdict _
  | orderCancel locate id cancelledQty =>
      cases hv
      rw [liveEffect_eq _ _ rfl]
      exact reduceOrder_live_verdict _
  | orderDelete locate id =>
      cases hv
      rw [liveEffect_eq _ _ rfl]
      exact orderDelete_live_verdict
  | orderReplace locate oldId newId newQty newPx ts =>
      cases hv
      exact orderReplace_live_verdict
  | _ => cases hv

/-- Other calls always take effect. -/
theorem step_live_other (hv : verdict caps m.live c = none) :
    (m.step caps c).live = liveStep m.live c := by
  cases c with
  | stockDirectory locate _ _ _ _ _ _ _ _ _ _ _ _ =>
      simp only [Market.step]
      split <;> rfl
  | crossTrade locate xtype =>
      simp only [Market.step, Market.crossTrade, liveStep]
      by_cases hx : xtype = CrossType.Closing
      · simp only [hx, ne_eq, not_true_eq_false, if_false, if_true]
        rfl
      · simp only [hx, ne_eq, not_false_eq_true, if_true, if_false]
        rfl
  | tradingAction _ _ _ _ => rfl
  | regSho _ _ => rfl
  | nonCrossTrade _ _ _ _ => rfl
  | brokenTrade _ _ => rfl
  | _ => cases hv

/-! ## The statistics show what took effect -/

/-- The counter for exhausted level pools goes up with that verdict only. -/
theorem levelPool_step (hv : verdict caps m.live c = some v) :
    (m.step caps c).stats.addRejectedLevelPoolExhausted =
      m.stats.addRejectedLevelPoolExhausted + if v = .levelPool then 1 else 0 := by
  refine (congrArg addRejectedLevelPoolExhausted (step_events hv)).trans ?_
  cases v with
  | accepted =>
      cases c with
      | addOrder _ _ _ _ _ _ _ attributed => cases attributed <;> rfl
      | _ => rfl
  | orderPool => cases c <;> rfl
  | _ => rfl

/-- The statistics before and after a call show its verdict. -/
theorem effect_eq (hv : verdict caps m.live c = some v) :
    c.effect m.stats (m.step caps c).stats = v.effect c := by
  have hevent : c.isOrderEvent = true := by rw [← verdict_isSome caps m.live, hv]; rfl
  unfold Call.effect
  rw [accepted_step hv, levelPool_step hv, hevent]
  cases v <;> simp [Verdict.effect]

/-- A call edits the live orders as the statistics show. -/
theorem step_live_effect (caps : Capacities) (m : Market) (c : Call) :
    (m.step caps c).live = liveEffect m.live (c.effect m.stats (m.step caps c).stats) := by
  cases hv : verdict caps m.live c with
  | some v => rw [effect_eq hv, step_live_verdict hv]
  | none =>
      have hevent : c.isOrderEvent = false := by rw [← verdict_isSome caps m.live, hv]; rfl
      rw [step_live_other hv, Call.effect, if_pos (.inl hevent)]
      rfl

/-! ## Runs -/

/-- An effect is a run of at most one call. -/
theorem liveEffect_eq_run (live : List OrderData) (effect : Option Call) :
    liveEffect live effect = run liveStep live effect.toList := by
  cases effect <;> rfl

/-- The calls of a run that took effect. -/
abbrev effects (caps : Capacities) : Market → List Call → List Call :=
  outputs (step caps) fun m c => (c.effect m.stats (m.step caps c).stats).toList

/-- One more call. -/
theorem effects_concat (cs : List Call) (c : Call) :
    effects caps m (cs ++ [c]) = effects caps m cs ++ (c.effect (run (step caps) m cs).stats
      ((run (step caps) m cs).step caps c).stats).toList :=
  outputs_concat cs c

/-- A run edits the live orders as the calls that took effect do. -/
theorem run_live_effects (caps : Capacities) (m : Market) (cs : List Call) :
    (run (step caps) m cs).live = run liveStep m.live (effects caps m cs) :=
  run_outputs (fun m c => (step_live_effect caps m c).trans (liveEffect_eq_run _ _)) cs

end Market
end ItchParser
