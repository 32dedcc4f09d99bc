import ItchParser.Lib.Machine
import ItchParser.Market.Verdict

/-!
# Runs of a market

A run without rejections is a run of `liveStep` on the list of live orders. Prices come from calls,
so a run whose calls avoid the reserved price never has an order there.
-/

namespace ItchParser

open Ladder OrderBook Machine

namespace Market

variable {caps : Capacities} {m : Market} {c : Call} {cs pre : List Call}

/-- The market after the calls `cs`. -/
abbrev after (caps : Capacities) (cs : List Call) : Market :=
  run (step caps) empty cs

/-- One more call. -/
theorem after_concat (caps : Capacities) (pre : List Call) (c : Call) :
    after caps (pre ++ [c]) = (after caps pre).step caps c :=
  run_concat pre c

/-! ## Instruments -/

/-- Placing an order creates no instrument. -/
theorem place_known (accept : EngineStats → EngineStats) (d : OrderData) :
    (m.place caps d accept).known = m.known := by
  unfold Market.place
  split
  · split <;> rfl
  · rfl

/-- E, C and X create no instrument. -/
theorem reduceOrder_known (locate : StockLocate) (id : OrderReferenceNumber) (qty : Shares)
    (accept : EngineStats → EngineStats) :
    (m.reduceOrder locate id qty accept).known = m.known := by
  unfold Market.reduceOrder
  split
  · rfl
  · simp only
    split
    · rfl
    · split <;> rfl

/-- A call makes no instrument known but the one of its locate. -/
theorem known_step {locate : StockLocate} (h : (m.step caps c).known locate = true) :
    m.known locate = true ∨ c.locate = locate := by
  have hknow : ∀ l, (m.know l).known locate = true → m.known locate = true ∨ l = locate := by
    intro l hl
    by_cases hlocate : l = locate
    · exact .inr hlocate
    · exact .inl (by simpa [Market.know, Function.update_of_ne (Ne.symm hlocate)] using hl)
  cases c with
  | stockDirectory l _ _ _ _ _ _ _ _ _ _ _ _ =>
      simp only [Market.step] at h
      split at h <;> exact hknow l h
  | addOrder l id bsi qty px ts mpid attributed =>
      simp only [Market.step, Market.addOrder] at h
      split at h
      · exact .inl h
      · split at h
        · exact hknow l h
        · rw [place_known] at h
          exact hknow l h
  | orderExecuted _ _ _ _ => exact .inl (reduceOrder_known (m := m) .. ▸ h)
  | orderExecutedWithPrice _ _ _ _ _ _ => exact .inl (reduceOrder_known (m := m) .. ▸ h)
  | orderCancel _ _ _ => exact .inl (reduceOrder_known (m := m) .. ▸ h)
  | orderDelete l id =>
      simp only [Market.step, Market.orderDelete] at h
      split at h
      · exact .inl h
      · split at h <;> exact .inl h
  | orderReplace l oldId newId newQty newPx ts =>
      simp only [Market.step, Market.orderReplace] at h
      split at h
      · exact .inl h
      · split at h
        · exact .inl h
        · split at h
          · exact .inl h
          · split at h
            · exact .inl h
            · rw [place_known] at h
              exact .inl h
  | crossTrade l xtype =>
      simp only [Market.step, Market.crossTrade] at h
      split at h <;> exact .inl h
  | tradingAction _ _ _ _ => exact .inl h
  | regSho _ _ => exact .inl h
  | nonCrossTrade _ _ _ _ => exact .inl h
  | brokenTrade _ _ => exact .inl h

/-- Instruments are known for locates of calls only. -/
theorem mem_locates_of_known {locate : StockLocate} (caps : Capacities) (cs : List Call)
    (h : (after caps cs).known locate = true) : locate ∈ cs.map Call.locate := by
  revert h
  refine prefix_induction (P := fun pre => (after caps pre).known locate = true →
    locate ∈ pre.map Call.locate) cs (fun h => by cases h) fun pre c _ ih h => ?_
  rw [after_concat] at h
  rw [List.map_append, List.mem_append]
  rcases known_step h with h | h
  · exact .inl (ih h)
  · exact .inr (by simp [h])

/-! ## Counters and rejections -/

/-- The counters are right after every run. -/
theorem counts_after (caps : Capacities) (cs : List Call) : (after caps cs).Counts := by
  refine prefix_induction (P := fun pre => (after caps pre).Counts) cs empty_counts ?_
  intro pre c _ ih
  rw [after_concat]
  exact ih.step c

/-- Rejections are never taken back. -/
theorem poolExhausted_mono (hpre : pre <+: cs) :
    (after caps pre).stats.poolExhausted ≤ (after caps cs).stats.poolExhausted :=
  run_mono (fun m : Market => m.stats.poolExhausted) poolExhausted_le_step hpre

/-- In a run that exhausts no pool, no call is rejected. -/
theorem not_rejects (hpool : (after caps cs).stats.poolExhausted = 0) (hpre : pre ++ [c] <+: cs) :
    ¬ Rejects caps (after caps pre).live c := by
  intro hrejects
  have hle : (after caps (pre ++ [c])).stats.poolExhausted ≤ _ := poolExhausted_mono hpre
  have hstep : (Rejects caps (after caps pre).live c ∧ _) ∨ _ :=
    poolExhausted_step (after caps pre) c
  rw [after_concat, hpool] at hle
  rcases hstep with ⟨_, h⟩ | ⟨hnot, _⟩
  · omega
  · exact hnot hrejects

end Market

/-! ## Prices -/

section Prices

variable {live : List OrderData} {c : Call} {id : OrderReferenceNumber} {qty : Shares}

/-- Some of the orders. -/
theorem NoReserved.filter (h : NoReserved live) (p : OrderData → Bool) :
    NoReserved (live.filter p) :=
  fun d hd => h d (List.mem_filter.mp hd).1

/-- A partial reduction changes no price. -/
theorem NoReserved.reducedBy (h : NoReserved live) : NoReserved (reducedBy live id qty) := by
  intro d hd
  obtain ⟨d', hd', _, _, _, hprice⟩ := mem_reducedBy hd
  rw [← hprice]
  exact h d' hd'

/-- A new order at another price. -/
theorem NoReserved.append {d : OrderData} (h : NoReserved live) (hd : d.priceCents ≠ kEmptyPrice) :
    NoReserved (live ++ [d]) := by
  intro x hx
  rcases List.mem_append.mp hx with hx | hx
  · exact h x hx
  · rw [List.mem_singleton.mp hx]
    exact hd

/-- A reduction changes no price. -/
theorem NoReserved.reduceIn (h : NoReserved live) : NoReserved (reduceIn live id qty) := by
  unfold ItchParser.reduceIn
  split
  · exact h
  · split
    · exact h.filter _
    · exact h.reducedBy

/-- Orders at the reserved price only come from calls with that price. -/
theorem NoReserved.liveStep (h : NoReserved live) (hc : c.price? ≠ some kEmptyPrice) :
    NoReserved (liveStep live c) := by
  cases c with
  | addOrder locate id bsi qty px ts mpid attributed =>
      simp only [ItchParser.liveStep]
      split
      · exact h
      · exact h.append fun he => hc (congrArg some he)
  | orderExecuted _ _ _ _ => exact h.reduceIn
  | orderExecutedWithPrice _ _ _ _ _ _ => exact h.reduceIn
  | orderCancel _ _ _ => exact h.reduceIn
  | orderDelete _ _ => exact h.filter _
  | orderReplace locate oldId newId newQty newPx ts =>
      simp only [ItchParser.liveStep]
      split
      · exact h
      · split
        · exact h
        · exact (h.filter _).append fun he => hc (congrArg some he)
  | crossTrade locate xtype =>
      simp only [ItchParser.liveStep]
      split
      · exact h.filter _
      · exact h
  | stockDirectory _ _ _ _ _ _ _ _ _ _ _ _ _ => exact h
  | tradingAction _ _ _ _ => exact h
  | regSho _ _ => exact h
  | nonCrossTrade _ _ _ _ => exact h
  | brokenTrade _ _ => exact h

end Prices

namespace Market

variable {caps : Capacities} {m : Market} {c : Call}

/-- Calls that avoid the reserved price keep it off the books, rejected or not. -/
theorem noReserved_step (h : NoReserved m.live) (hc : c.price? ≠ some kEmptyPrice) :
    NoReserved (m.step caps c).live := by
  by_cases hrejects : Rejects caps m.live c
  · rcases step_live_of_rejects hrejects with hlive | ⟨id, hlive⟩
    · rwa [hlive]
    · rw [hlive]
      exact h.filter _
  · rw [step_live h hrejects]
    exact h.liveStep hc

/-- No call names the reserved price, so no order has it. -/
theorem noReserved_after (caps : Capacities) {cs : List Call}
    (hprice : ∀ c ∈ cs, c.price? ≠ some kEmptyPrice) : NoReserved (after caps cs).live := by
  refine prefix_induction (P := fun pre => NoReserved (after caps pre).live) cs
    (fun d hd => by cases hd) fun pre c hpre ih => ?_
  rw [after_concat]
  exact noReserved_step ih (hprice c (hpre.subset (by simp)))

/-- A run without rejections and without the reserved price edits the list of live orders. -/
theorem after_live {caps : Capacities} {cs : List Call}
    (hprice : ∀ c ∈ cs, c.price? ≠ some kEmptyPrice)
    (hpool : (after caps cs).stats.poolExhausted = 0) :
    (after caps cs).live = run liveStep [] cs ∧ NoReserved (after caps cs).live := by
  refine ⟨?_, noReserved_after caps hprice⟩
  refine prefix_induction (P := fun pre => (after caps pre).live = run liveStep [] pre) cs rfl
    fun pre c hpre ih => ?_
  have hreserved : NoReserved (after caps pre).live := noReserved_after caps fun c hc =>
    hprice c (((List.prefix_append _ _).trans hpre).subset hc)
  rw [after_concat, step_live hreserved (not_rejects hpool hpre), run_concat, ih]

end Market
end ItchParser
