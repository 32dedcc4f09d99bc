import Mathlib.Data.ENat.Lattice
import ItchParser.Engine.Agrees

/-!
# Reductions commute and add up

What a sequence of executions, cancels and deletes leaves of an order depends on the shares that
the whole sequence takes off it, not on how or in which order. `demand` is what a sequence takes off
one id, unbounded when it has a delete, and `remaining` is what is left of a list of live orders.
-/

namespace ItchParser

open Ladder OrderBook Machine

/-- An execution, cancel or delete. -/
def Call.isReduction : Call → Bool
  | .orderExecuted _ _ _ _ => true
  | .orderExecutedWithPrice _ _ _ _ _ _ => true
  | .orderCancel _ _ _ => true
  | .orderDelete _ _ => true
  | _ => false

/-- The shares that a call takes off the order `id`. -/
def Call.reduction (id : OrderReferenceNumber) : Call → ℕ∞
  | .orderExecuted _ id' execQty _ => if id' = id then (execQty.toNat : ℕ∞) else 0
  | .orderExecutedWithPrice _ id' execQty _ _ _ => if id' = id then (execQty.toNat : ℕ∞) else 0
  | .orderCancel _ id' cancelledQty => if id' = id then (cancelledQty.toNat : ℕ∞) else 0
  | .orderDelete _ id' => if id' = id then ⊤ else 0
  | _ => 0

/-- The shares that the calls `cs` take off the order `id`. -/
def demand (cs : List Call) (id : OrderReferenceNumber) : ℕ∞ :=
  (cs.map (Call.reduction id)).sum

/-- The shares that are left of an order when `n` are taken off it. -/
def OrderData.left (d : OrderData) (n : ℕ∞) : ℕ∞ :=
  (d.sharesRemaining.toNat : ℕ∞) - n

/-- What is left of an order when `n` shares are taken off it. -/
def OrderData.reducedBy (d : OrderData) (n : ℕ∞) : Option OrderData :=
  if d.left n = 0 then none else some { d with sharesRemaining := UInt32.ofNat (d.left n).toNat }

/-- What is left of the live orders when `f` says how many shares are taken off each of them. -/
def remaining (live : List OrderData) (f : OrderReferenceNumber → ℕ∞) : List OrderData :=
  live.filterMap fun d => d.reducedBy (f d.orderId)

/-- Every live order has shares left. -/
def Open (live : List OrderData) : Prop :=
  ∀ d ∈ live, d.sharesRemaining ≠ 0

section Remaining

variable {live : List OrderData} {d d' : OrderData} {f g : OrderReferenceNumber → ℕ∞} {n k : ℕ∞}
  {id : OrderReferenceNumber} {qty : Shares} {c : Call} {cs : List Call}

/-- The demand of the first call and the others. -/
theorem demand_cons : demand (c :: cs) id = c.reduction id + demand cs id :=
  List.sum_cons

/-! ## One order -/

/-- Shares that leave in two parts. -/
theorem OrderData.left_add : d.left (n + k) = d.left n - k :=
  tsub_add_eq_tsub_tsub _ _ _

/-- The order after a reduction that leaves some shares. -/
theorem OrderData.reducedBy_some (h : d.reducedBy n = some d') :
    d' = { d with sharesRemaining := d'.sharesRemaining } ∧ d'.left 0 = d.left n ∧
      d.left n ≠ 0 := by
  unfold reducedBy at h
  split at h
  · cases h
  · next hleft =>
      cases h
      have hle : d.left n ≤ d.sharesRemaining.toNat := tsub_le_self
      obtain ⟨j, hj⟩ := ENat.ne_top_iff_exists.mp (ne_top_of_le_ne_top (ENat.natCast_ne_top _) hle)
      have hsmall : j < 4294967296 := by
        rw [← hj] at hle
        exact (ENat.natCast_le_natCast.mp hle).trans_lt d.sharesRemaining.toNat_lt
      refine ⟨rfl, ?_, hleft⟩
      rw [← hj]
      simp only [left, ENat.toNat_natCast, tsub_zero]
      exact congrArg Nat.cast (UInt32.toNat_ofNat_of_lt' hsmall)

/-- Nothing leaves. -/
theorem OrderData.reducedBy_zero (hopen : d.sharesRemaining ≠ 0) : d.reducedBy 0 = some d := by
  have hleft : d.left 0 = d.sharesRemaining.toNat := tsub_zero _
  unfold reducedBy
  rw [hleft, if_neg, ENat.toNat_natCast, UInt32.ofNat_toNat]
  simpa [← UInt32.toNat_inj] using hopen

/-- Two reductions are one by the sum. -/
theorem OrderData.reducedBy_add :
    ((d.reducedBy n).bind fun d' => d'.reducedBy k) = d.reducedBy (n + k) := by
  cases h : d.reducedBy n with
  | none =>
      have hleft : d.left n = 0 := by
        by_contra hne
        rw [reducedBy, if_neg hne] at h
        cases h
      rw [Option.bind_none, reducedBy, left_add, hleft, zero_tsub, if_pos rfl]
  | some d' =>
      obtain ⟨hd', hleft, -⟩ := reducedBy_some h
      have hsum : d'.left k = d.left (n + k) := by
        rw [left_add, ← hleft, ← left_add, zero_add]
      rw [Option.bind_some, reducedBy, reducedBy, hsum, hd']

/-- Only as much as the order has can be taken off it. -/
theorem OrderData.reducedBy_congr
    (h : min n d.sharesRemaining.toNat = min k d.sharesRemaining.toNat) :
    d.reducedBy n = d.reducedBy k := by
  have hmin : ∀ j : ℕ∞, d.left j = d.left (min j d.sharesRemaining.toNat) := by
    intro j
    rcases le_total j d.sharesRemaining.toNat with hj | hj
    · rw [min_eq_left hj]
    · rw [min_eq_right hj, left, left, tsub_eq_zero_of_le hj, tsub_self]
  rw [reducedBy, reducedBy, hmin n, hmin k, h]

/-- An order loses what one event asks for, or is gone. -/
theorem OrderData.reducedBy_toNat :
    d.reducedBy qty.toNat =
      if qty ≥ d.sharesRemaining then none
      else some { d with sharesRemaining := d.sharesRemaining - qty } := by
  have hleft : d.left qty.toNat = ((d.sharesRemaining.toNat - qty.toNat : ℕ) : ℕ∞) :=
    (ENat.natCast_sub _ _).symm
  unfold reducedBy
  rw [hleft]
  by_cases hqty : qty ≥ d.sharesRemaining
  · have hle := UInt32.le_iff_toNat_le.mp hqty
    rw [if_pos hqty, if_pos]
    exact_mod_cast Nat.sub_eq_zero_of_le hle
  · have hlt := UInt32.lt_iff_toNat_lt.mp (UInt32.not_le.mp hqty)
    rw [if_neg hqty, if_neg (by exact_mod_cast (Nat.sub_pos_of_lt hlt).ne'), ENat.toNat_natCast,
      ← UInt32.toNat_sub_of_le _ _ (UInt32.le_iff_toNat_le.mpr hlt.le), UInt32.ofNat_toNat]

/-! ## The live orders -/

/-- What remains comes from a live order. -/
theorem mem_remaining (h : d' ∈ remaining live f) :
    ∃ d ∈ live, d.reducedBy (f d.orderId) = some d' :=
  List.mem_filterMap.mp h

/-- What remains has shares. -/
theorem remaining_open : Open (remaining live f) := by
  intro d' hd'
  obtain ⟨d, -, hreduced⟩ := mem_remaining hd'
  obtain ⟨-, hleft, hne⟩ := OrderData.reducedBy_some hreduced
  intro hzero
  rw [← hleft, OrderData.left, hzero] at hne
  exact hne rfl

/-- What remains keeps its order. -/
theorem remaining_sublist :
    ((remaining live f).map OrderData.orderId).Sublist (live.map OrderData.orderId) := by
  unfold remaining
  induction live with
  | nil => exact List.Sublist.slnil
  | cons d live ih =>
      cases h : d.reducedBy (f d.orderId) with
      | none =>
          rw [List.filterMap_cons, h]
          exact ih.cons _
      | some d' =>
          have hid : d'.orderId = d.orderId := by rw [(OrderData.reducedBy_some h).1]
          rw [List.filterMap_cons, h, List.map_cons, List.map_cons, hid]
          exact ih.cons_cons _

/-- Without a demand all remains. -/
theorem remaining_zero (hopen : Open live) (hf : ∀ d ∈ live, f d.orderId = 0) :
    remaining live f = live := by
  have hkeep : ∀ d ∈ live, d.reducedBy (f d.orderId) = some d := fun d hd => by
    rw [hf d hd, OrderData.reducedBy_zero (hopen d hd)]
  rw [remaining, List.filterMap_congr hkeep, List.filterMap_some]

/-- Two rounds of reductions are one. -/
theorem remaining_remaining :
    remaining (remaining live f) g = remaining live fun id => f id + g id := by
  unfold remaining
  rw [List.filterMap_filterMap]
  refine List.filterMap_congr fun d _ => ?_
  rw [← OrderData.reducedBy_add]
  cases h : d.reducedBy (f d.orderId) with
  | none => rfl
  | some d' =>
      have hid : d'.orderId = d.orderId := by rw [(OrderData.reducedBy_some h).1]
      rw [Option.bind_some, Option.bind_some, hid]

/-- A reduction of one order. -/
theorem remaining_single (hnodup : (live.map OrderData.orderId).Nodup) (hopen : Open live)
    (hd : d ∈ live) : remaining live (fun id => if d.orderId = id then n else 0) =
      match d.reducedBy n with
      | none => without live d.orderId
      | some d' => live.map fun x => if x.orderId = d.orderId then d' else x := by
  have hsame : ∀ x ∈ live, x.orderId = d.orderId → x = d := fun x hx hid =>
    List.inj_on_of_nodup_map hnodup hx hd hid
  have hothers : ∀ x ∈ live, x.orderId ≠ d.orderId →
      x.reducedBy (if d.orderId = x.orderId then n else 0) = some x := fun x hx hne => by
    rw [if_neg hne.symm, OrderData.reducedBy_zero (hopen x hx)]
  have hown : d.reducedBy (if d.orderId = d.orderId then n else 0) = d.reducedBy n := by
    rw [if_pos rfl]
  simp only [remaining]
  cases h : d.reducedBy n with
  | none =>
      rw [h] at hown
      rw [without, ← List.filterMap_eq_filter]
      refine List.filterMap_congr fun x hx => ?_
      by_cases hid : x.orderId = d.orderId
      · rw [hsame x hx hid, hown]
        simp [Option.guard]
      · rw [hothers x hx hid]
        simp [Option.guard, hid]
  | some d' =>
      rw [h] at hown
      simp only [← List.filterMap_eq_map]
      refine List.filterMap_congr fun x hx => ?_
      by_cases hid : x.orderId = d.orderId
      · rw [hsame x hx hid, hown, Function.comp_apply, if_pos rfl]
      · rw [hothers x hx hid, Function.comp_apply, if_neg hid]

/-- A reduction, as a demand. -/
theorem reduceIn_eq (hnodup : (live.map OrderData.orderId).Nodup) (hopen : Open live) :
    reduceIn live id qty = remaining live fun x => if id = x then (qty.toNat : ℕ∞) else 0 := by
  unfold reduceIn
  cases hfind : findIn live id with
  | none =>
      refine (remaining_zero hopen fun d hd => ?_).symm
      exact if_neg fun he => findIn_eq_none.mp hfind d hd he.symm
  | some d =>
      obtain ⟨hd, rfl⟩ := mem_of_findIn hfind
      have hsame : ∀ x ∈ live, x.orderId = d.orderId → x = d := fun x hx hid =>
        List.inj_on_of_nodup_map hnodup hx hd hid
      rw [remaining_single hnodup hopen hd, OrderData.reducedBy_toNat]
      by_cases hqty : qty ≥ d.sharesRemaining
      · simp only [hqty, if_true]
      · simp only [hqty, if_false]
        refine List.map_congr_left fun x hx => ?_
        by_cases hid : x.orderId = d.orderId
        · rw [if_pos hid, if_pos hid, hsame x hx hid]
        · rw [if_neg hid, if_neg hid]

/-- An order that leaves, as a demand of everything. -/
theorem without_eq (hnodup : (live.map OrderData.orderId).Nodup) (hopen : Open live) :
    without live id = remaining live fun x => if id = x then ⊤ else 0 := by
  cases hfind : findIn live id with
  | none =>
      rw [without_eq_self hfind, remaining_zero hopen fun d hd => ?_]
      exact if_neg fun he => findIn_eq_none.mp hfind d hd he.symm
  | some d =>
      obtain ⟨hd, rfl⟩ := mem_of_findIn hfind
      have hgone : d.reducedBy ⊤ = none := if_pos (tsub_eq_zero_of_le le_top)
      rw [remaining_single hnodup hopen hd, hgone]

/-- One call. -/
theorem liveStep_eq (hnodup : (live.map OrderData.orderId).Nodup) (hopen : Open live)
    (hc : c.isReduction = true) :
    liveStep live c = remaining live fun id => c.reduction id := by
  cases c with
  | orderExecuted locate id execQty matchNo => exact reduceIn_eq hnodup hopen
  | orderExecutedWithPrice locate id execQty matchNo printable execPx =>
      exact reduceIn_eq hnodup hopen
  | orderCancel locate id cancelledQty => exact reduceIn_eq hnodup hopen
  | orderDelete locate id => exact without_eq hnodup hopen
  | _ => cases hc

/-- A sequence of reductions takes off what it demands. -/
theorem run_liveStep_eq (hnodup : (live.map OrderData.orderId).Nodup) (hopen : Open live)
    (hcs : ∀ c ∈ cs, c.isReduction = true) :
    run liveStep live cs = remaining live (demand cs) := by
  induction cs generalizing live with
  | nil => exact (remaining_zero hopen fun _ _ => rfl).symm
  | cons c cs ih =>
      have hc : c.isReduction = true := hcs c (by simp)
      rw [run_cons, liveStep_eq hnodup hopen hc,
        ih (hnodup.sublist remaining_sublist) remaining_open fun c' hc' => hcs c' (by simp [hc']),
        remaining_remaining]
      exact congrArg (remaining live) (funext fun _ => demand_cons.symm)

/-- What is left depends on the demand up to the shares of the live orders only. -/
theorem remaining_congr (h : ∀ d ∈ live, min (f d.orderId) d.sharesRemaining.toNat =
    min (g d.orderId) d.sharesRemaining.toNat) : remaining live f = remaining live g :=
  List.filterMap_congr fun d hd => OrderData.reducedBy_congr (h d hd)

/-- A reduction opens no level. -/
theorem length_bookOf_liveStep_le (hc : c.isReduction = true) (locate : StockLocate) (s : Side) :
    (bookOf (liveStep live c) locate s).length ≤ (bookOf live locate s).length := by
  have hwithout : ∀ id,
      (bookOf (without live id) locate s).length ≤ (bookOf live locate s).length := fun id => by
      rw [bookOf_without]
      exact List.length_filterMap_le _ _
  have hreduce : ∀ id (qty : Shares),
      (bookOf (reduceIn live id qty) locate s).length ≤ (bookOf live locate s).length := by
    intro id qty
    unfold reduceIn
    split
    · exact le_refl _
    · split
      · exact hwithout id
      · rw [bookOf_reducedBy, rename, List.length_map]
  cases c with
  | orderExecuted locate id execQty matchNo => exact hreduce id execQty
  | orderExecutedWithPrice locate id execQty matchNo printable execPx => exact hreduce id execQty
  | orderCancel locate id cancelledQty => exact hreduce id cancelledQty
  | orderDelete locate id => exact hwithout id
  | _ => cases hc

end Remaining

namespace MatchingEngine

variable {e e' : MatchingEngine} {caps : Capacities} {m : Market} {cs : List Call}

/-- A sequence of reductions edits the live orders of the market. No call of it is rejected, and no
book grows. -/
theorem Refines.reductions (h : e.Refines caps m) (hcounts : m.Counts)
    (hcap : caps.orders < 4294967296) (hroomy : e.Roomy) (hprice : NoReserved m.live)
    (hcs : ∀ c ∈ cs, c.isReduction = true) :
    ∃ m', (run step e cs).Refines caps m' ∧ m'.Counts ∧ m'.live = run liveStep m.live cs := by
  induction cs generalizing e m with
  | nil => exact ⟨m, h, hcounts, rfl⟩
  | cons c cs ih =>
      have hc : c.isReduction = true := hcs c (by simp)
      have hroom : ¬ Rejects caps m.live c := by
        cases c with
        | addOrder _ _ _ _ _ _ _ _ => cases hc
        | orderReplace _ _ _ _ _ _ => cases hc
        | _ => exact id
      have hnew : c.price? ≠ some kEmptyPrice := by
        cases c with
        | addOrder _ _ _ _ _ _ _ _ => cases hc
        | orderReplace _ _ _ _ _ _ => cases hc
        | _ => exact nofun
      have hlive : (m.step caps c).live = liveStep m.live c := Market.step_live hprice hroom
      have hstep := step_refines h (h.fits hroomy hcap) c
      have hle : ∀ locate s, ((m.step caps c).book locate s).length ≤ (m.book locate s).length := by
        intro locate s
        unfold Market.book
        rw [hlive]
        exact length_bookOf_liveStep_le hc locate s
      obtain ⟨m', hrefines, hcounts', hlive'⟩ := ih hstep (hcounts.step c)
        (h.roomy_of_le hstep hle hroomy) (Market.noReserved_step hprice hnew)
        fun c' hc' => hcs c' (by simp [hc'])
      exact ⟨m', hrefines, hcounts', by rw [hlive', hlive, run_cons]⟩

/-- In every reachable state whose live orders all have shares left, two sequences of reductions
that take the same shares off every live order, up to the shares it has, lead to engines that
agree. -/
theorem reductions_agree (oc lc : UInt64) (cs : List Call) (hcap : oc.toNat < 4294967296)
    (hprice : ∀ c ∈ cs, c.price? ≠ some kEmptyPrice)
    (hroomy : ∀ pre, pre <+: cs → (after oc lc pre).Roomy)
    (hopen : ∀ id d, (after oc lc cs).orderOf id = some d → d.sharesRemaining ≠ 0)
    (first second : List Call) (hfirst : ∀ c ∈ first, c.isReduction = true)
    (hsecond : ∀ c ∈ second, c.isReduction = true)
    (hsame : ∀ id d, (after oc lc cs).orderOf id = some d →
      min (demand first id) d.sharesRemaining.toNat =
        min (demand second id) d.sharesRemaining.toNat) :
    (run step (after oc lc cs) first).Agrees (run step (after oc lc cs) second) := by
  have hrefines := after_refines oc lc cs hcap hroomy
  have hcounts : (Market.after ⟨oc.toNat, lc.toNat⟩ cs).Counts := Market.counts_after _ cs
  have hreserved := Market.noReserved_after ⟨oc.toNat, lc.toNat⟩ hprice
  have hnodup := (Market.after ⟨oc.toNat, lc.toNat⟩ cs).distinct
  have hfind : ∀ d ∈ (Market.after ⟨oc.toNat, lc.toNat⟩ cs).live,
      (after oc lc cs).orderOf d.orderId = some d := fun d hd => by
    rw [hrefines.orderOf_eq]
    exact Market.find_eq_some.mpr ⟨hd, rfl⟩
  have hshares : Open (Market.after ⟨oc.toNat, lc.toNat⟩ cs).live := fun d hd =>
    hopen d.orderId d (hfind d hd)
  have hend := hroomy cs (List.prefix_refl _)
  obtain ⟨m₁, hrefines₁, hcounts₁, hlive₁⟩ :=
    hrefines.reductions hcounts hcap hend hreserved hfirst
  obtain ⟨m₂, hrefines₂, hcounts₂, hlive₂⟩ :=
    hrefines.reductions hcounts hcap hend hreserved hsecond
  refine hrefines₁.agrees hrefines₂ hcounts₁ hcounts₂ ?_
  rw [hlive₁, hlive₂, run_liveStep_eq hnodup hshares hfirst, run_liveStep_eq hnodup hshares hsecond]
  exact remaining_congr fun d hd => hsame d.orderId d (hfind d hd)

/-- Two fills and a cancel of order 10 and a delete of order 20, against one cancel of all shares of
order 20 and one fill of order 10. -/
theorem reductions_agree_sample :
    (run step (after 4 4 (sampleSession.take 3)) [.orderExecuted 1 10 100 1,
        .orderDelete 2 20, .orderCancel 1 10 50, .orderExecuted 1 10 100 2]).Agrees
      (run step (after 4 4 (sampleSession.take 3)) [.orderCancel 2 20 80,
        .orderExecutedWithPrice 1 10 250 3 (ascii 'Y') 999900]) := by
  have hlive : ∀ id d, (after 4 4 (sampleSession.take 3)).orderOf id = some d →
      d ∈ run liveStep [] (sampleSession.take 3) ∧ d.orderId = id := by
    intro id d h
    have hrefines := after_refines 4 4 (sampleSession.take 3) (by decide)
      fun pre _ => sampleSession_roomy pre
    have hpool : (Market.after ⟨(4 : UInt64).toNat, (4 : UInt64).toNat⟩
        (sampleSession.take 3)).stats.poolExhausted = 0 := by
      rw [Market.after, ← hrefines.stats_eq]
      decide +kernel
    rw [hrefines.orderOf_eq] at h
    obtain ⟨hd, hid⟩ := Market.find_eq_some.mp h
    exact ⟨(Market.after_live (by decide) hpool).1 ▸ hd, hid⟩
  refine reductions_agree 4 4 (sampleSession.take 3) (by decide) (by decide)
    (fun pre _ => sampleSession_roomy pre) (fun id d h => ?_) _ _ (by decide) (by decide)
    fun id d h => ?_
  · exact (by decide : ∀ d ∈ run liveStep [] (sampleSession.take 3), d.sharesRemaining ≠ 0) d
      (hlive id d h).1
  · obtain ⟨hd, rfl⟩ := hlive id d h
    revert d
    decide

end MatchingEngine
end ItchParser
