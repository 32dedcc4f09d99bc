import ItchParser.Engine.Runs
import ItchParser.Market.Runs
import ItchParser.Reference

/-!
# Instruments do not interfere

The live orders of one locate only depend on the calls that carry it, as long as no id is used under
two locates and no pool is exhausted. `Owns` is what the ids give: an order that a call names rests
at the call's locate.
-/

namespace ItchParser

open Ladder OrderBook Machine

namespace Call

/-- The order ids that a call carries. -/
def ids : Call → List OrderReferenceNumber
  | .addOrder _ id _ _ _ _ _ _ => [id]
  | .orderExecuted _ id _ _ => [id]
  | .orderExecutedWithPrice _ id _ _ _ _ => [id]
  | .orderCancel _ id _ => [id]
  | .orderDelete _ id => [id]
  | .orderReplace _ oldId newId _ _ _ => [oldId, newId]
  | _ => []

end Call

/-- The live orders that rest at `locate`. -/
def ofLocate (locate : StockLocate) (live : List OrderData) : List OrderData :=
  live.filter fun d => d.locate = locate

/-- The orders that a call names rest at the call's locate. -/
def Owns (live : List OrderData) (c : Call) : Prop :=
  ∀ d ∈ live, d.orderId ∈ c.ids → d.locate = c.locate

section Projection

variable {live : List OrderData} {c : Call} {d : OrderData} {id : OrderReferenceNumber}
  {qty : Shares} {locate l : StockLocate} {s : Side} {caps : Capacities}

/-! ## Projecting to one locate -/

/-- The orders of a locate make its book. -/
theorem bookOf_ofLocate : bookOf (ofLocate locate live) locate s = bookOf live locate s := by
  unfold bookOf ofLocate
  rw [restingOn_filter, List.filter_eq_self.mpr fun x hx => ?_]
  have hx' := of_decide_eq_true (List.mem_filter.mp hx).2
  simpa using hx'.1

/-- The orders of a locate are on no other book. -/
theorem bookOf_ofLocate_of_ne (hl : l ≠ locate) : bookOf (ofLocate locate live) l s = [] := by
  unfold bookOf
  rw [restingOn_of_other fun x hx he => hl ?_]
  · rfl
  · exact he.symm.trans (of_decide_eq_true (List.mem_filter.mp hx).2)

/-- Whether an order opens a level depends on its own book. -/
theorem opensFor_ofLocate (hd : d.locate = locate) :
    opensFor (ofLocate locate live) d = opensFor live d := by
  unfold opensFor
  rw [hd, bookOf_ofLocate]

/-- The orders of one locate do not exhaust a pool that all orders leave room in. -/
theorem LevelsFull.of_ofLocate (hd : d.locate = locate)
    (h : LevelsFull caps (ofLocate locate live) d) : LevelsFull caps live d := by
  refine ⟨?_, h.2.trans (levelCount_filter_le _)⟩
  rw [← opensFor_ofLocate hd]
  exact h.1

/-- An order that leaves, seen by one locate. -/
theorem ofLocate_without :
    ofLocate locate (without live id) = without (ofLocate locate live) id := by
  unfold ofLocate without
  rw [List.filter_filter, List.filter_filter]
  exact List.filter_congr fun d _ => Bool.and_comm _ _

/-- A partial reduction, seen by one locate. -/
theorem ofLocate_reducedBy :
    ofLocate locate (reducedBy live id qty) = reducedBy (ofLocate locate live) id qty := by
  unfold ofLocate reducedBy
  rw [List.filter_map]
  congr 1
  refine List.filter_congr fun d _ => ?_
  simp only [Function.comp_apply]
  split <;> rfl

/-- A new order, seen by one locate. -/
theorem ofLocate_append : ofLocate locate (live ++ [d]) =
    ofLocate locate live ++ if d.locate = locate then [d] else [] := by
  unfold ofLocate
  rw [List.filter_append, List.filter_singleton]
  by_cases h : d.locate = locate <;> simp [h]

/-- An order of the call's locate is found in the projection. -/
theorem findIn_ofLocate (hown : ∀ d ∈ live, d.orderId = id → d.locate = locate) :
    findIn (ofLocate locate live) id = findIn live id := by
  induction live with
  | nil => rfl
  | cons d live ih =>
      have hrest := ih fun x hx => hown x (by simp [hx])
      unfold findIn ofLocate at hrest ⊢
      by_cases hid : d.orderId = id
      · rw [List.filter_cons_of_pos (by simpa using hown d (by simp) hid)]
        simp [hid]
      · rw [List.find?_cons_of_neg (by simpa using hid), ← hrest]
        by_cases hd : d.locate = locate <;> simp [hd, hid]

/-- An order of another locate does not matter. -/
theorem without_ofLocate_of_ne (hl : l ≠ locate)
    (hown : ∀ d ∈ live, d.orderId = id → d.locate = l) :
    without (ofLocate locate live) id = ofLocate locate live := by
  refine List.filter_eq_self.mpr fun d hd => ?_
  obtain ⟨hmem, hd⟩ := List.mem_filter.mp hd
  have hne : d.orderId ≠ id := fun hid =>
    hl ((hown d hmem hid).symm.trans (of_decide_eq_true hd))
  simpa using hne

/-- A reduction at another locate is not seen. -/
theorem reducedBy_ofLocate_of_ne (hl : l ≠ locate)
    (hown : ∀ d ∈ live, d.orderId = id → d.locate = l) :
    reducedBy (ofLocate locate live) id qty = ofLocate locate live := by
  refine (List.map_congr_left fun d hd => ?_).trans (List.map_id _)
  obtain ⟨hmem, hd⟩ := List.mem_filter.mp hd
  have hne : d.orderId ≠ id := fun hid =>
    hl ((hown d hmem hid).symm.trans (of_decide_eq_true hd))
  rw [if_neg hne]
  rfl

/-- A reduction is seen by the locate of its order only. -/
theorem ofLocate_reduceIn (hown : ∀ d ∈ live, d.orderId = id → d.locate = l) :
    ofLocate locate (reduceIn live id qty) =
      if l = locate then reduceIn (ofLocate locate live) id qty else ofLocate locate live := by
  by_cases hl : l = locate
  · subst hl
    unfold reduceIn
    rw [if_pos rfl, findIn_ofLocate hown]
    split
    · rfl
    · split
      · exact ofLocate_without
      · exact ofLocate_reducedBy
  · unfold reduceIn
    rw [if_neg hl]
    split
    · rfl
    · split
      · rw [ofLocate_without, without_ofLocate_of_ne hl hown]
      · rw [ofLocate_reducedBy, reducedBy_ofLocate_of_ne hl hown]

/-- Adding an order to the live ones. -/
theorem ofLocate_addIn (hown : ∀ d ∈ live, d.orderId = id → d.locate = l) (hd : d.locate = l) :
    ofLocate locate (if (findIn live id).isSome then live else live ++ [d]) =
      if l = locate then
        if (findIn (ofLocate locate live) id).isSome then ofLocate locate live
        else ofLocate locate live ++ [d]
      else ofLocate locate live := by
  by_cases hl : l = locate
  · subst hl
    rw [if_pos rfl, findIn_ofLocate hown]
    split
    · rfl
    · rw [ofLocate_append, if_pos hd]
  · rw [if_neg hl]
    split
    · rfl
    · rw [ofLocate_append, if_neg fun he => hl (hd.symm.trans he), List.append_nil]

/-- Replacing an order needs both ids to be at the locate. -/
theorem ofLocate_liveStep_replace {oldId newId : OrderReferenceNumber} {newQty : Shares}
    {newPx : Price} {ts : Timestamp} (hold : ∀ d ∈ live, d.orderId = oldId → d.locate = l)
    (hnew : ∀ d ∈ live, d.orderId = newId → d.locate = l) :
    ofLocate locate (liveStep live (.orderReplace l oldId newId newQty newPx ts)) =
      if l = locate then
        liveStep (ofLocate locate live) (.orderReplace l oldId newId newQty newPx ts)
      else ofLocate locate live := by
  simp only [liveStep]
  cases hfind : findIn live oldId with
  | none =>
      by_cases hl : l = locate
      · subst hl
        rw [if_pos rfl, findIn_ofLocate hold, hfind]
      · rw [if_neg hl]
  | some d =>
      obtain ⟨hd, hdid⟩ := mem_of_findIn hfind
      have hnewl : (Market.replacement d newId newQty newPx ts).locate = l := hold d hd hdid
      by_cases hl : l = locate
      · subst hl
        rw [if_pos rfl, findIn_ofLocate hold, findIn_ofLocate hnew, hfind]
        simp only
        split
        · rfl
        · rw [ofLocate_append, ofLocate_without, if_pos hnewl]
      · rw [if_neg hl]
        simp only
        split
        · rfl
        · rw [ofLocate_append, ofLocate_without, without_ofLocate_of_ne hl hold,
            if_neg fun he => hl (hnewl.symm.trans he), List.append_nil]

/-- A closing cross takes away all orders of its locate. -/
theorem ofLocate_closed : ofLocate locate (live.filter fun d => d.locate ≠ l) =
    if l = locate then (ofLocate locate live).filter fun d => d.locate ≠ l
    else ofLocate locate live := by
  unfold ofLocate
  split
  · rw [List.filter_filter, List.filter_filter]
    exact List.filter_congr fun d _ => Bool.and_comm _ _
  · next hl =>
      rw [List.filter_filter]
      refine List.filter_congr fun d _ => ?_
      by_cases hd : d.locate = locate
      · simp [hd, Ne.symm hl]
      · simp [hd]

/-- A call edits the orders of its own locate, and nobody else's. -/
theorem ofLocate_liveStep (hown : Owns live c) : ofLocate locate (liveStep live c) =
    if c.locate = locate then liveStep (ofLocate locate live) c else ofLocate locate live := by
  cases c with
  | addOrder l id bsi qty px ts mpid attributed =>
      exact ofLocate_addIn (fun d hd he => hown d hd (by simp [Call.ids, he])) rfl
  | orderExecuted l id execQty matchNo =>
      exact ofLocate_reduceIn fun d hd he => hown d hd (by simp [Call.ids, he])
  | orderExecutedWithPrice l id execQty matchNo printable execPx =>
      exact ofLocate_reduceIn fun d hd he => hown d hd (by simp [Call.ids, he])
  | orderCancel l id cancelledQty =>
      exact ofLocate_reduceIn fun d hd he => hown d hd (by simp [Call.ids, he])
  | orderDelete l id =>
      have hid : ∀ d ∈ live, d.orderId = id → d.locate = l := fun d hd he =>
        hown d hd (by simp [Call.ids, he])
      show ofLocate locate (without live id) =
        if l = locate then without (ofLocate locate live) id else ofLocate locate live
      rw [ofLocate_without]
      split
      · rfl
      · next hl => exact without_ofLocate_of_ne hl hid
  | orderReplace l oldId newId newQty newPx ts =>
      exact ofLocate_liveStep_replace (fun d hd he => hown d hd (by simp [Call.ids, he]))
        fun d hd he => hown d hd (by simp [Call.ids, he])
  | crossTrade l xtype =>
      show ofLocate locate (liveStep live (.crossTrade l xtype)) =
        if l = locate then liveStep (ofLocate locate live) (.crossTrade l xtype)
        else ofLocate locate live
      simp only [liveStep]
      by_cases hx : xtype = CrossType.Closing
      · rw [if_pos hx, if_pos hx]
        exact ofLocate_closed
      · rw [if_neg hx, if_neg hx]
        split <;> rfl
  | stockDirectory _ _ _ _ _ _ _ _ _ _ _ _ _ => simp only [liveStep]; split <;> rfl
  | tradingAction _ _ _ _ => simp only [liveStep]; split <;> rfl
  | regSho _ _ => simp only [liveStep]; split <;> rfl
  | nonCrossTrade _ _ _ _ => simp only [liveStep]; split <;> rfl
  | brokenTrade _ _ => simp only [liveStep]; split <;> rfl

/-- A call that the orders of its locate alone would get rejected is rejected anyway. -/
theorem Rejects.of_ofLocate (hown : Owns live c)
    (h : Rejects caps (ofLocate c.locate live) c) : Rejects caps live c := by
  cases c with
  | addOrder l id bsi qty px ts mpid attributed =>
      obtain ⟨hnone, hfull⟩ := h
      rw [findIn_ofLocate fun d hd he => hown d hd (by simp [Call.ids, he])] at hnone
      refine ⟨hnone, hfull.imp (fun hle => hle.trans (List.length_filter_le _ _)) fun hlevels => ?_⟩
      exact hlevels.of_ofLocate rfl
  | orderReplace l oldId newId newQty newPx ts =>
      obtain ⟨d, hold, hnew, hfull⟩ := h
      rw [findIn_ofLocate fun d hd he => hown d hd (by simp [Call.ids, he])] at hold hnew
      obtain ⟨hd, hid⟩ := mem_of_findIn hold
      have hdl : d.locate = l := hown d hd (by simp [Call.ids, hid])
      refine ⟨d, hold, hnew, hfull.imp (fun hle => hle.trans (List.length_filter_le _ _)) ?_⟩
      rintro ⟨hpx, hlevels⟩
      refine ⟨hpx, ?_⟩
      rw [← ofLocate_without] at hlevels
      exact hlevels.of_ofLocate hdl
  | _ => exact h.elim

/-! ## Where live orders come from -/

/-- Every live order has an id and a locate from one of the calls. -/
def Traced (pre : List Call) (live : List OrderData) : Prop :=
  ∀ d ∈ live, ∃ c ∈ pre, d.orderId ∈ c.ids ∧ d.locate = c.locate

/-- A reduction adds no order. -/
theorem mem_reduceIn (hd : d ∈ reduceIn live id qty) :
    ∃ d' ∈ live, d'.orderId = d.orderId ∧ d'.locate = d.locate := by
  unfold reduceIn at hd
  split at hd
  · exact ⟨d, hd, rfl, rfl⟩
  · split at hd
    · exact ⟨d, (mem_without.mp hd).1, rfl, rfl⟩
    · obtain ⟨d', hd', hid, hlocate, -⟩ := mem_reducedBy hd
      exact ⟨d', hd', hid, hlocate⟩

/-- A live order after a call was live before it or is named by it. -/
theorem mem_liveStep (hown : Owns live c) (hd : d ∈ liveStep live c) :
    (∃ d' ∈ live, d'.orderId = d.orderId ∧ d'.locate = d.locate) ∨
      (d.orderId ∈ c.ids ∧ d.locate = c.locate) := by
  cases c with
  | addOrder l id bsi qty px ts mpid attributed =>
      simp only [liveStep] at hd
      split at hd
      · exact .inl ⟨d, hd, rfl, rfl⟩
      · rcases List.mem_append.mp hd with hd | hd
        · exact .inl ⟨d, hd, rfl, rfl⟩
        · rw [List.mem_singleton.mp hd]
          exact .inr ⟨by simp [Call.ids], rfl⟩
  | orderExecuted _ _ _ _ => exact .inl (mem_reduceIn hd)
  | orderExecutedWithPrice _ _ _ _ _ _ => exact .inl (mem_reduceIn hd)
  | orderCancel _ _ _ => exact .inl (mem_reduceIn hd)
  | orderDelete _ _ => exact .inl ⟨d, (mem_without.mp hd).1, rfl, rfl⟩
  | orderReplace l oldId newId newQty newPx ts =>
      simp only [liveStep] at hd
      cases hfind : findIn live oldId with
      | none =>
          rw [hfind] at hd
          exact .inl ⟨d, hd, rfl, rfl⟩
      | some old =>
          obtain ⟨hold, hid⟩ := mem_of_findIn hfind
          rw [hfind] at hd
          simp only at hd
          split at hd
          · exact .inl ⟨d, hd, rfl, rfl⟩
          · rcases List.mem_append.mp hd with hd | hd
            · exact .inl ⟨d, (mem_without.mp hd).1, rfl, rfl⟩
            · rw [List.mem_singleton.mp hd]
              exact .inr ⟨by simp [Call.ids, Market.replacement],
                hown old hold (by simp [Call.ids, hid])⟩
  | crossTrade l xtype =>
      simp only [liveStep] at hd
      split at hd
      · exact .inl ⟨d, (List.mem_filter.mp hd).1, rfl, rfl⟩
      · exact .inl ⟨d, hd, rfl, rfl⟩
  | stockDirectory _ _ _ _ _ _ _ _ _ _ _ _ _ => exact .inl ⟨d, hd, rfl, rfl⟩
  | tradingAction _ _ _ _ => exact .inl ⟨d, hd, rfl, rfl⟩
  | regSho _ _ => exact .inl ⟨d, hd, rfl, rfl⟩
  | nonCrossTrade _ _ _ _ => exact .inl ⟨d, hd, rfl, rfl⟩
  | brokenTrade _ _ => exact .inl ⟨d, hd, rfl, rfl⟩

/-- One more call keeps the ids at their locates. -/
theorem Traced.step {pre : List Call} (h : Traced pre live) (hown : Owns live c) :
    Traced (pre ++ [c]) (liveStep live c) := by
  intro d hd
  rcases mem_liveStep hown hd with ⟨d', hd', hid, hlocate⟩ | ⟨hid, hlocate⟩
  · obtain ⟨c', hc', hids, hl⟩ := h d' hd'
    exact ⟨c', by simp [hc'], hid ▸ hids, hlocate.symm.trans hl⟩
  · exact ⟨c, by simp, hid, hlocate⟩

end Projection

/-- No order id occurs in calls that carry two different locates. -/
def IdsSeparate (cs : List Call) : Prop :=
  ∀ c ∈ cs, ∀ c' ∈ cs, ∀ id ∈ c.ids, id ∈ c'.ids → c.locate = c'.locate

/-- A call of the run names orders of its own locate. -/
theorem Traced.owns {pre cs : List Call} {live : List OrderData} {c : Call} (h : Traced pre live)
    (hids : IdsSeparate cs) (hpre : pre ++ [c] <+: cs) : Owns live c := by
  intro d hd hid
  obtain ⟨c', hc', hid', hl⟩ := h d hd
  exact hl.trans (hids c' (hpre.subset (by simp [hc'])) c (hpre.subset (by simp)) _ hid' hid)

/-- The calls that carry `locate`. -/
def callsOf (locate : StockLocate) (cs : List Call) : List Call :=
  cs.filter fun c => c.locate = locate

/-- One more call, if it is the locate's. -/
theorem callsOf_concat (locate : StockLocate) (pre : List Call) (c : Call) :
    callsOf locate (pre ++ [c]) = callsOf locate pre ++ if c.locate = locate then [c] else [] := by
  unfold callsOf
  rw [List.filter_append, List.filter_singleton]
  by_cases h : c.locate = locate <;> simp [h]

/-- The orders of one locate fit where all orders fit. -/
theorem Market.Fits.of_ofLocate {m m' : Market} (hfit : m.Fits) {locate : StockLocate}
    (hlive : m'.live = ofLocate locate m.live) : m'.Fits := by
  have hbook : ∀ l s, m'.book l s = if l = locate then m.book l s else [] := by
    intro l s
    unfold Market.book
    rw [hlive]
    split
    · next hl => rw [hl, bookOf_ofLocate]
    · next hl => exact bookOf_ofLocate_of_ne hl
  refine ⟨fun l s => ?_, fun l s g hg => ?_⟩
  · rw [hbook]
    split
    · exact hfit.levels l s
    · exact Nat.zero_le _
  · rw [hbook] at hg
    split at hg
    · exact hfit.orders l s g hg
    · cases hg

namespace MatchingEngine

/-- What the run on the calls of one locate has to do with the run on all of them. -/
structure Projects (oc lc : UInt64) (locate : StockLocate) (cs : List Call) : Prop where
  traced : Traced cs (Market.after ⟨oc.toNat, lc.toNat⟩ cs).live
  refines : (after oc lc (callsOf locate cs)).Refines ⟨oc.toNat, lc.toNat⟩
    (Market.after ⟨oc.toNat, lc.toNat⟩ (callsOf locate cs))
  live : (Market.after ⟨oc.toNat, lc.toNat⟩ (callsOf locate cs)).live =
    ofLocate locate (Market.after ⟨oc.toNat, lc.toNat⟩ cs).live
  pool : (Market.after ⟨oc.toNat, lc.toNat⟩ (callsOf locate cs)).stats.poolExhausted = 0

/-- The projection is kept by one more call. -/
theorem Projects.concat {oc lc : UInt64} {locate : StockLocate} {pre : List Call} {c : Call}
    (h : Projects oc lc locate pre) (hfit : (Market.after ⟨oc.toNat, lc.toNat⟩ pre).Fits)
    (hprice : NoReserved (Market.after ⟨oc.toNat, lc.toNat⟩ pre).live)
    (hroom : ¬ Rejects ⟨oc.toNat, lc.toNat⟩ (Market.after ⟨oc.toNat, lc.toNat⟩ pre).live c)
    (hown : Owns (Market.after ⟨oc.toNat, lc.toNat⟩ pre).live c) :
    Projects oc lc locate (pre ++ [c]) := by
  have hstep : (Market.after ⟨oc.toNat, lc.toNat⟩ (pre ++ [c])).live =
      liveStep (Market.after ⟨oc.toNat, lc.toNat⟩ pre).live c := by
    rw [Market.after_concat]
    exact Market.step_live hprice hroom
  have htraced : Traced (pre ++ [c]) (Market.after ⟨oc.toNat, lc.toNat⟩ (pre ++ [c])).live := by
    rw [hstep]
    exact h.traced.step hown
  by_cases hl : c.locate = locate
  · subst hl
    have hcalls : callsOf c.locate (pre ++ [c]) = callsOf c.locate pre ++ [c] := by
      rw [callsOf_concat, if_pos rfl]
    have hroom' : ¬ Rejects ⟨oc.toNat, lc.toNat⟩
        (Market.after ⟨oc.toNat, lc.toNat⟩ (callsOf c.locate pre)).live c := by
      rw [h.live]
      exact fun hrejects => hroom (hrejects.of_ofLocate hown)
    have hprice' : NoReserved
        (Market.after ⟨oc.toNat, lc.toNat⟩ (callsOf c.locate pre)).live := by
      rw [h.live]
      exact hprice.filter _
    refine ⟨htraced, ?_, ?_, ?_⟩
    · rw [hcalls, after, run_concat, Market.after_concat]
      exact step_refines h.refines (hfit.of_ofLocate h.live) c
    · rw [hcalls, Market.after_concat, Market.step_live hprice' hroom', h.live, hstep,
        ofLocate_liveStep hown, if_pos rfl]
    · rw [hcalls, Market.after_concat]
      rcases Market.poolExhausted_step
        (Market.after ⟨oc.toNat, lc.toNat⟩ (callsOf c.locate pre)) c with
        ⟨hrejects, -⟩ | ⟨-, hsame⟩
      · exact absurd hrejects hroom'
      · exact hsame.trans h.pool
  · -- a call of another locate leaves the second run where it is
    have hcalls : callsOf locate (pre ++ [c]) = callsOf locate pre := by
      rw [callsOf_concat, if_neg hl, List.append_nil]
    refine ⟨htraced, ?_, ?_, ?_⟩
    · rw [hcalls]
      exact h.refines
    · rw [hcalls, h.live, hstep, ofLocate_liveStep hown, if_neg hl]
    · rw [hcalls]
      exact h.pool

/-- The final book of a locate is the book after the calls that carry it, and those calls alone
exhaust no pool. -/
theorem book_isolated (oc lc : UInt64) (cs : List Call) (hcap : oc.toNat < 4294967296)
    (_hlevels : lc.toNat < 4294967296) (hids : IdsSeparate cs)
    (hpool : (after oc lc cs).stats.poolExhausted = 0)
    (hprice : ∀ c ∈ cs, c.price? ≠ some kEmptyPrice)
    (hroomy : ∀ pre, pre <+: cs → (after oc lc pre).Roomy) (locate : StockLocate) :
    (∀ s, (after oc lc cs).bookView locate s =
        (after oc lc (callsOf locate cs)).bookView locate s) ∧
      (after oc lc (callsOf locate cs)).stats.poolExhausted = 0 := by
  have hrefines : ∀ pre, pre <+: cs → (after oc lc pre).Refines ⟨oc.toNat, lc.toNat⟩
      (Market.after ⟨oc.toNat, lc.toNat⟩ pre) := fun pre hpre =>
    after_refines oc lc pre hcap fun p hp => hroomy p (hp.trans hpre)
  rw [(hrefines cs (List.prefix_refl _)).stats_eq] at hpool
  have hprojects : Projects oc lc locate cs := by
    refine prefix_induction (P := Projects oc lc locate) cs ?_ fun pre c hpre ih => ?_
    · exact ⟨(fun d hd => by cases hd), create_refines oc lc, rfl, rfl⟩
    · have hpre' : pre <+: cs := (List.prefix_append _ _).trans hpre
      have hreserved : NoReserved (Market.after ⟨oc.toNat, lc.toNat⟩ pre).live :=
        (Market.after_live (fun c hc => hprice c (hpre'.subset hc))
          (Nat.le_zero.mp ((Market.poolExhausted_mono hpre').trans_eq hpool))).2
      exact ih.concat ((hrefines pre hpre').fits (hroomy pre hpre') hcap) hreserved
        (Market.not_rejects hpool hpre) (ih.traced.owns hids hpre)
  refine ⟨fun s => ?_, ?_⟩
  · rw [(hrefines cs (List.prefix_refl _)).bookView_eq, hprojects.refines.bookView_eq]
    unfold Market.book
    rw [hprojects.live, bookOf_ofLocate]
  · rw [hprojects.refines.stats_eq]
    exact hprojects.pool

/-- The bids of the first instrument do not need the events of the second one. -/
theorem book_isolated_sample :
    (∀ s, (after 4 4 sampleSession).bookView 1 s =
        (after 4 4 (callsOf 1 sampleSession)).bookView 1 s) ∧
      (after 4 4 (callsOf 1 sampleSession)).stats.poolExhausted = 0 :=
  book_isolated 4 4 sampleSession (by decide) (by decide)
    (by simp [IdsSeparate, sampleSession, Call.ids, Call.locate]) (by decide +kernel) (by decide)
    (fun pre _ => sampleSession_roomy pre) 1

end MatchingEngine
end ItchParser
