import ItchParser.Engine.Effects
import ItchParser.Properties.Reconstruction

/-!
# No share is lost

The shares of one instrument are added by A, F and U, taken off by E, C and X, withdrawn by D and U,
and cleared by the closing cross. What rests in the two sides of its book, as the levels' aggregates
say, is what was added less what left, after every run and whatever calls were turned away.
-/

namespace ItchParser

open Ladder OrderBook Machine

/-- Movements of the shares of one instrument. -/
structure Volume where
  added : Nat
  executed : Nat
  cancelled : Nat
  withdrawn : Nat
  cleared : Nat
  deriving DecidableEq

namespace Volume

/-- Nothing has moved. -/
def zero : Volume :=
  ⟨0, 0, 0, 0, 0⟩

/-- The movements of two parts of a run. -/
def add (v w : Volume) : Volume :=
  ⟨v.added + w.added, v.executed + w.executed, v.cancelled + w.cancelled,
    v.withdrawn + w.withdrawn, v.cleared + w.cleared⟩

/-- The shares that left. -/
def gone (v : Volume) : Nat :=
  v.executed + v.cancelled + v.withdrawn + v.cleared

/-- The number `n`, if there is an order and it rests at `locate`. -/
def ifAt (locate : StockLocate) (d : Option OrderData) (n : OrderData → Nat) : Nat :=
  match d with
  | none => 0
  | some d => if d.locate = locate then n d else 0

/-- The shares that an event of `qty` takes off an order. -/
def taken (qty : Shares) (d : OrderData) : Nat :=
  min qty.toNat d.sharesRemaining.toNat

/-- What a call that takes effect moves at `locate`. An event counts for the instrument at which its
order rests. `find` finds the orders, and `resting` shares rest at `locate`. -/
def moved (locate : StockLocate) (find : OrderReferenceNumber → Option OrderData) (resting : Nat) :
    Call → Volume
  | .addOrder l _ _ qty _ _ _ _ => if l = locate then { zero with added := qty.toNat } else zero
  | .orderExecuted _ id execQty _ => { zero with executed := ifAt locate (find id) (taken execQty) }
  | .orderExecutedWithPrice _ id execQty _ _ _ =>
      { zero with executed := ifAt locate (find id) (taken execQty) }
  | .orderCancel _ id cancelledQty =>
      { zero with cancelled := ifAt locate (find id) (taken cancelledQty) }
  | .orderDelete _ id =>
      { zero with withdrawn := ifAt locate (find id) fun d => d.sharesRemaining.toNat }
  | .orderReplace _ oldId _ newQty _ _ =>
      { zero with
        withdrawn := ifAt locate (find oldId) fun d => d.sharesRemaining.toNat
        added := ifAt locate (find oldId) fun _ => newQty.toNat }
  | .crossTrade l xtype =>
      if l = locate ∧ xtype = CrossType.Closing then { zero with cleared := resting } else zero
  | _ => zero

end Volume

/-- The shares that rest at `locate`. -/
def sharesAt (live : List OrderData) (locate : StockLocate) : Nat :=
  ((live.filter fun d => d.locate = locate).map fun d => d.sharesRemaining.toNat).sum

/-- What must hold of the live orders for the call to take effect. -/
def Call.Admissible (live : List OrderData) : Call → Prop
  | .addOrder _ id _ _ _ _ _ _ => findIn live id = none
  | .orderReplace _ oldId newId _ _ _ => (findIn live oldId).isSome ∧ findIn live newId = none
  | _ => True

section Steps

variable {live : List OrderData} {d : OrderData} {c : Call} {locate : StockLocate}
  {id : OrderReferenceNumber} {qty : Shares}

/-- The shares with a new order. -/
theorem sharesAt_append : sharesAt (live ++ [d]) locate =
    sharesAt live locate + if d.locate = locate then d.sharesRemaining.toNat else 0 := by
  unfold sharesAt
  rw [List.filter_append, List.map_append, List.sum_append, List.filter_singleton]
  by_cases hd : d.locate = locate <;> simp [hd]

/-- The shares do not depend on the order. -/
theorem sharesAt_perm {live' : List OrderData} (h : live.Perm live') :
    sharesAt live locate = sharesAt live' locate :=
  ((h.filter _).map _).sum_eq

/-- A live order and the others. -/
theorem perm_without (hnodup : (live.map OrderData.orderId).Nodup) (hd : d ∈ live) :
    (d :: without live d.orderId).Perm live := by
  have herase : without live d.orderId = live.erase d := by
    rw [without_eq_filter hnodup hd, (hnodup.of_map _).erase_eq_filter]
    exact List.filter_congr fun x _ => by by_cases hx : x = d <;> simp [hx]
  rw [herase]
  exact (List.perm_cons_erase hd).symm

/-- The shares of the first order and the others. -/
theorem sharesAt_cons : sharesAt (d :: live) locate =
    (if d.locate = locate then d.sharesRemaining.toNat else 0) + sharesAt live locate := by
  unfold sharesAt
  by_cases hd : d.locate = locate <;> simp [hd]

/-- The shares with an order that leaves. -/
theorem sharesAt_without (hnodup : (live.map OrderData.orderId).Nodup) (id : OrderReferenceNumber)
    (locate : StockLocate) :
    sharesAt (without live id) locate +
      Volume.ifAt locate (findIn live id) (fun d => d.sharesRemaining.toNat) =
        sharesAt live locate := by
  cases hfind : findIn live id with
  | none =>
      rw [without_eq_self hfind]
      rfl
  | some d =>
      obtain ⟨hd, rfl⟩ := mem_of_findIn hfind
      rw [← sharesAt_perm (perm_without hnodup hd), sharesAt_cons, Nat.add_comm]
      rfl

/-- The shares with a partial reduction. -/
theorem sharesAt_reducedBy (hnodup : (live.map OrderData.orderId).Nodup)
    (hd : findIn live id = some d) (hqty : qty < d.sharesRemaining) :
    sharesAt (reducedBy live id qty) locate + (if d.locate = locate then qty.toNat else 0) =
      sharesAt live locate := by
  obtain ⟨hmem, rfl⟩ := mem_of_findIn hd
  have hperm := (perm_without hnodup hmem).map fun x =>
    if x.orderId = d.orderId then { x with sharesRemaining := x.sharesRemaining - qty } else x
  have hothers : (without live d.orderId).map (fun x =>
      if x.orderId = d.orderId then { x with sharesRemaining := x.sharesRemaining - qty } else x) =
        without live d.orderId :=
    (List.map_congr_left fun x hx => if_neg (mem_without.mp hx).2).trans (List.map_id _)
  rw [List.map_cons, if_pos rfl, hothers] at hperm
  have hle := UInt32.lt_iff_toNat_lt.mp hqty
  rw [reducedBy, ← sharesAt_perm hperm, ← sharesAt_perm (perm_without hnodup hmem), sharesAt_cons,
    sharesAt_cons]
  show (if d.locate = locate then (d.sharesRemaining - qty).toNat else 0) + _ + _ = _
  rw [UInt32.toNat_sub_of_le _ _ (UInt32.le_iff_toNat_le.mpr hle.le)]
  split <;> omega

/-- The shares with a reduction. -/
theorem sharesAt_reduceIn (hnodup : (live.map OrderData.orderId).Nodup) :
    sharesAt (reduceIn live id qty) locate +
      Volume.ifAt locate (findIn live id) (Volume.taken qty) = sharesAt live locate := by
  unfold reduceIn
  cases hfind : findIn live id with
  | none => rfl
  | some d =>
      simp only
      split
      · next hqty =>
          have hle := UInt32.le_iff_toNat_le.mp hqty
          rw [← sharesAt_without hnodup id locate, hfind]
          unfold Volume.ifAt Volume.taken
          simp only [Nat.min_eq_right hle]
      · next hqty =>
          have hlt := UInt32.not_le.mp hqty
          rw [← sharesAt_reducedBy hnodup hfind hlt]
          unfold Volume.ifAt Volume.taken
          simp only [Nat.min_eq_left (UInt32.lt_iff_toNat_lt.mp hlt).le]

/-- The shares with a cleared book. -/
theorem sharesAt_clear (live : List OrderData) (locate l : StockLocate) :
    sharesAt (live.filter fun d => d.locate ≠ l) locate +
    (if l = locate then sharesAt live locate else 0) = sharesAt live locate := by
  unfold sharesAt
  rw [List.filter_filter]
  by_cases hl : l = locate
  · subst hl
    rw [if_pos rfl, List.filter_eq_nil_iff.mpr fun d _ => by simp]
    simp
  · rw [if_neg hl, Nat.add_zero]
    congr 2
    exact List.filter_congr fun d _ => by
      by_cases hd : d.locate = locate
      · simp [hd, Ne.symm hl]
      · simp [hd]

/-- A call that takes effect changes the resting shares by what it moves. -/
theorem sharesAt_liveStep (hnodup : (live.map OrderData.orderId).Nodup)
    (hc : c.Admissible live) :
    sharesAt (liveStep live c) locate +
        (Volume.moved locate (findIn live) (sharesAt live locate) c).gone =
      sharesAt live locate +
        (Volume.moved locate (findIn live) (sharesAt live locate) c).added := by
  cases c with
  | addOrder l id bsi qty px ts mpid attributed =>
      have hfresh : findIn live id = none := hc
      simp only [liveStep, hfresh, Option.isSome_none, Bool.false_eq_true, if_false, Volume.moved]
      rw [sharesAt_append]
      by_cases hl : l = locate
      · rw [if_pos hl, if_pos hl]
        rfl
      · rw [if_neg hl, if_neg hl]
        rfl
  | orderExecuted l id execQty matchNo => exact sharesAt_reduceIn hnodup
  | orderExecutedWithPrice l id execQty matchNo printable execPx => exact sharesAt_reduceIn hnodup
  | orderCancel l id cancelledQty =>
      simpa only [liveStep, Volume.moved, Volume.gone, Volume.zero, Nat.zero_add, Nat.add_zero]
        using sharesAt_reduceIn hnodup
  | orderDelete l id =>
      simpa only [liveStep, Volume.moved, Volume.gone, Volume.zero, Nat.zero_add, Nat.add_zero]
        using sharesAt_without hnodup id locate
  | orderReplace l oldId newId newQty newPx ts =>
      obtain ⟨hold, hnew⟩ := hc
      obtain ⟨d, hd⟩ := Option.isSome_iff_exists.mp hold
      have hwithout := sharesAt_without hnodup oldId locate
      simp only [liveStep, hd, hnew, Option.isSome_none, Bool.false_eq_true, if_false,
        Volume.moved, Volume.gone, Volume.zero] at hwithout ⊢
      -- the new order keeps the locate of the old one, whatever the event says
      rw [sharesAt_append]
      show _ + (if d.locate = locate then newQty.toNat else 0) + _ =
        _ + (if d.locate = locate then newQty.toNat else 0)
      omega
  | crossTrade l xtype =>
      have hclear := sharesAt_clear live locate l
      simp only [liveStep, Volume.moved]
      by_cases hx : xtype = CrossType.Closing
      · simp only [hx, and_true, if_true]
        by_cases hl : l = locate
        · rw [if_pos hl] at hclear ⊢
          simpa only [Volume.gone, Volume.zero, Nat.zero_add, Nat.add_zero] using hclear
        · rw [if_neg hl] at hclear ⊢
          exact hclear
      · simp only [hx, and_false, if_false]
        rfl
  | _ => rfl

end Steps

namespace Market

variable {caps : Capacities} {m : Market} {c : Call} {cs : List Call} {locate : StockLocate}

/-- An accepted replace names a live order and a fresh id. -/
theorem admissible_replace {oldId newId : OrderReferenceNumber} {newQty : Shares} {newPx : Price}
    {ts : Timestamp} (hv : replaceVerdict caps m.live oldId newId newQty newPx ts = .accepted) :
    (findIn m.live oldId).isSome ∧ findIn m.live newId = none := by
  unfold replaceVerdict at hv
  cases hold : findIn m.live oldId with
  | none => simp [hold] at hv
  | some d =>
      refine ⟨rfl, ?_⟩
      simp only [hold] at hv
      split at hv
      · cases hv
      · next hnew => simpa using hnew

/-- Only admissible calls are accepted. -/
theorem admissible_of_accepted (hv : verdict caps m.live c = some .accepted) :
    c.Admissible m.live := by
  cases c with
  | addOrder locate id bsi qty px ts mpid attributed =>
      exact findIn_of_addVerdict (Option.some.inj hv)
  | orderReplace locate oldId newId newQty newPx ts => exact admissible_replace (Option.some.inj hv)
  | _ => trivial

/-- A call that took effect was admissible. -/
theorem admissible_effect (caps : Capacities) (m : Market) (c : Call) :
    ∀ c' ∈ c.effect m.stats (m.step caps c).stats, c'.Admissible m.live := by
  intro c' hc'
  cases hv : verdict caps m.live c with
  | some v =>
      rw [effect_eq hv] at hc'
      cases v with
      | accepted =>
          obtain rfl := Option.some.inj hc'
          exact admissible_of_accepted hv
      | levelPool =>
          -- the fallback of a replace is a delete
          cases c with
          | orderReplace _ _ _ _ _ _ =>
              obtain rfl := Option.some.inj hc'
              trivial
          | _ => cases hc'
      | _ => cases hc'
  | none =>
      have hevent : c.isOrderEvent = false := by rw [← verdict_isSome caps m.live, hv]; rfl
      rw [Call.effect, if_pos (.inl hevent)] at hc'
      obtain rfl := Option.some.inj hc'
      cases c with
      | addOrder _ _ _ _ _ _ _ _ => cases hevent
      | orderReplace _ _ _ _ _ _ => cases hevent
      | _ => trivial

end Market

namespace MatchingEngine

/-- The shares in one side of one book, as its levels say. -/
def sideShares (e : MatchingEngine) (locate : StockLocate) (s : Side) : Nat :=
  ((e.bookView locate s).map fun v => v.totalShares.toNat).sum

/-- The shares in one book. -/
def bookShares (e : MatchingEngine) (locate : StockLocate) : Nat :=
  e.sideShares locate .buy + e.sideShares locate .sell

/-- What a call moves at `locate`, as an observer sees it. -/
def volumeOf (e : MatchingEngine) (locate : StockLocate) (c : Call) : Volume :=
  (c.effect e.stats (e.step c).stats).elim Volume.zero
    (Volume.moved locate e.orderOf (e.bookShares locate))

/-- The sum of what the calls of a run move at `locate`. -/
def volume (e : MatchingEngine) (locate : StockLocate) (cs : List Call) : Volume :=
  (outputs step (fun e c => [e.volumeOf locate c]) e cs).foldl Volume.add Volume.zero

variable {e : MatchingEngine} {caps : Capacities} {m : Market} {c : Call} {locate : StockLocate}

/-- The shares on a side of a book, by level or by order. -/
theorem sum_shares_ladder (live : List OrderData) (locate : StockLocate) (s : Side) :
    ((bookOf live locate s).map fun g => (g.2.map fun d => d.sharesRemaining.toNat).sum).sum =
      ((restingOn live locate s).map fun d => d.sharesRemaining.toNat).sum := by
  rw [← ((ladder_perm (pricePolicy s) OrderData.priceCents _).map _).sum_eq, List.map_flatMap,
    List.flatMap_def, List.sum_flatten, List.map_map]
  rfl

/-- The two sides of a book hold the orders of its locate. -/
theorem sharesAt_sides (live : List OrderData) (locate : StockLocate) :
    sharesAt live locate =
      ((restingOn live locate .buy).map fun d => d.sharesRemaining.toNat).sum +
        ((restingOn live locate .sell).map fun d => d.sharesRemaining.toNat).sum := by
  induction live with
  | nil => rfl
  | cons d live ih =>
      rw [sharesAt_cons, ih]
      unfold restingOn
      by_cases hl : d.locate = locate
      · cases hs : d.side <;> simp [hl, hs] <;> omega
      · simp [hl]

/-- The levels of a side show the shares of its orders. -/
theorem Refines.sideShares_eq (h : e.Refines caps m) (hcap : caps.orders < 4294967296)
    (locate : StockLocate) (s : Side) : e.sideShares locate s =
      ((restingOn m.live locate s).map fun d => d.sharesRemaining.toNat).sum := by
  unfold sideShares
  rw [h.bookView_eq, List.map_map, ← sum_shares_ladder]
  refine congrArg List.sum (List.map_congr_left fun g hg => ?_)
  exact (LevelView.aggregates ((length_group_le hg).trans_lt (h.length_le.trans_lt hcap))).1

/-- The levels of a book show the shares of its orders. -/
theorem Refines.bookShares_eq (h : e.Refines caps m) (hcap : caps.orders < 4294967296)
    (locate : StockLocate) : e.bookShares locate = sharesAt m.live locate := by
  unfold bookShares
  rw [h.sideShares_eq hcap, h.sideShares_eq hcap, sharesAt_sides]

/-- The shares that left in two parts. -/
theorem gone_add (v w : Volume) : (v.add w).gone = v.gone + w.gone := by
  simp only [Volume.add, Volume.gone]
  omega

/-- One more call. -/
theorem volume_concat (e : MatchingEngine) (locate : StockLocate) (cs : List Call) (c : Call) :
    e.volume locate (cs ++ [c]) = (e.volume locate cs).add ((run step e cs).volumeOf locate c) := by
  unfold volume
  rw [outputs_concat, List.foldl_append]
  rfl

/-- One call changes the shares of a book by what it moves. -/
theorem Refines.bookShares_step (h : e.Refines caps m) (hcap : caps.orders < 4294967296)
    (h' : (e.step c).Refines caps (m.step caps c)) (locate : StockLocate) :
    (e.step c).bookShares locate + (e.volumeOf locate c).gone =
      e.bookShares locate + (e.volumeOf locate c).added := by
  have hfind : e.orderOf = findIn m.live := funext fun id => h.orderOf_eq id
  rw [h'.bookShares_eq hcap, h.bookShares_eq hcap, volumeOf, h.stats_eq, h'.stats_eq, hfind,
    h.bookShares_eq hcap, Market.step_live_effect]
  -- what took effect is what moves shares, not the call that came in
  have hadmissible := Market.admissible_effect caps m c
  cases heffect : c.effect m.stats (m.step caps c).stats with
  | none => rfl
  | some c' => exact sharesAt_liveStep m.distinct (hadmissible c' heffect)

/-- In every reachable state the shares that were added to an instrument are those that its book
shows and those that were executed, cancelled, withdrawn or cleared. -/
theorem shares_conserved (oc lc : UInt64) (cs : List Call) (hcap : oc.toNat < 4294967296)
    (hroomy : ∀ pre, pre <+: cs → (after oc lc pre).Roomy) (locate : StockLocate) :
    ((create oc lc).volume locate cs).added =
      (after oc lc cs).bookShares locate + ((create oc lc).volume locate cs).gone := by
  have hrun : ∀ pre, pre <+: cs → (after oc lc pre).Refines ⟨oc.toNat, lc.toNat⟩
      (run (Market.step ⟨oc.toNat, lc.toNat⟩) Market.empty pre) := fun pre hpre =>
    after_refines oc lc pre hcap fun pre' hpre' => hroomy pre' (hpre'.trans hpre)
  refine prefix_induction (P := fun pre => ((create oc lc).volume locate pre).added =
    (after oc lc pre).bookShares locate + ((create oc lc).volume locate pre).gone) cs ?_
    fun pre c hpre ih => ?_
  · rw [(hrun [] List.nil_prefix).bookShares_eq hcap]
    rfl
  · have hnext := hrun (pre ++ [c]) hpre
    rw [after, run_concat, run_concat] at hnext
    have hstep := (hrun pre ((List.prefix_append _ _).trans hpre)).bookShares_step
      hcap hnext locate
    rw [volume_concat, gone_add, after, run_concat]
    show _ + ((after oc lc pre).volumeOf locate c).added =
      ((after oc lc pre).step c).bookShares locate +
        (_ + ((after oc lc pre).volumeOf locate c).gone)
    omega

/-- A session with every kind of order event. -/
theorem shares_conserved_sample :
    ((create 4 4).volume 1 sampleSession).added = (after 4 4 sampleSession).bookShares 1 +
      ((create 4 4).volume 1 sampleSession).gone :=
  shares_conserved 4 4 sampleSession (by decide) (fun pre _ => sampleSession_roomy pre) 1

example : (create 4 4).volume 1 sampleSession = ⟨900, 100, 0, 200, 0⟩ := by decide +kernel

end MatchingEngine
end ItchParser
