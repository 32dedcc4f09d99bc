import ItchParser.Engine.Effects
import ItchParser.Lib.Waiting
import ItchParser.Reference

/-!
# An order keeps its place

As long as an order is live it keeps its price, side, instrument, owner and time, and its shares go
down by what the accepted executions and cancels took. Nobody gets in front of it: the orders ahead
of it in its level's queue can only become fewer, and they keep their order.
-/

namespace ItchParser

open Ladder OrderBook Machine Waiting

/-- The shares that an event takes off the order `id` while it stays live. -/
def Call.takes (id : OrderReferenceNumber) : Call → Nat
  | .orderExecuted _ id' execQty _ => if id' = id then execQty.toNat else 0
  | .orderExecutedWithPrice _ id' execQty _ _ _ => if id' = id then execQty.toNat else 0
  | .orderCancel _ id' cancelledQty => if id' = id then cancelledQty.toNat else 0
  | _ => 0

/-- The live orders with the locate, side and price of `d`. -/
def lineOf (live : List OrderData) (d : OrderData) : List OrderData :=
  (restingOn live d.locate d.side).filter fun x => x.priceCents = d.priceCents

/-- The order `d` becomes `d'`, which has `taken` shares less and no new order in front of it. -/
structure Stays (live live' : List OrderData) (d d' : OrderData) (taken : Nat) : Prop where
  found : findIn live d.orderId = some d
  stays : findIn live' d.orderId = some d'
  same : d' = { d with sharesRemaining := d'.sharesRemaining }
  shares : d'.sharesRemaining.toNat + taken = d.sharesRemaining.toNat
  ahead : ((ahead OrderData.orderId d.orderId (lineOf live' d)).map OrderData.orderId).Sublist
    ((ahead OrderData.orderId d.orderId (lineOf live d)).map OrderData.orderId)

section Edits

variable {live live' live'' : List OrderData} {d d' d'' : OrderData} {n n' : Nat} {c : Call}
  {id : OrderReferenceNumber} {qty : Shares}

/-- The orders of a line are at one price of one side. -/
theorem mem_lineOf {x : OrderData} : x ∈ lineOf live d ↔
    x ∈ live ∧ x.locate = d.locate ∧ x.side = d.side ∧ x.priceCents = d.priceCents := by
  simp only [lineOf, restingOn, List.mem_filter, decide_eq_true_eq, and_assoc]

/-- Some of the orders, in line. -/
theorem lineOf_filter (p : OrderData → Bool) :
    lineOf (live.filter p) d = (lineOf live d).filter p := by
  unfold lineOf
  rw [restingOn_filter, List.filter_filter, List.filter_filter]
  exact List.filter_congr fun x _ => Bool.and_comm _ _

/-- New orders stand at the end of the line. -/
theorem lineOf_append (new : List OrderData) :
    lineOf (live ++ new) d = lineOf live d ++ lineOf new d := by
  simp [lineOf, restingOn]

/-- A partial reduction keeps the line. -/
theorem lineOf_reducedBy : lineOf (reducedBy live id qty) d =
    (lineOf live d).map fun x =>
      if x.orderId = id then { x with sharesRemaining := x.sharesRemaining - qty } else x := by
  unfold lineOf restingOn reducedBy
  rw [List.filter_map, List.filter_map]
  congr 1
  rw [List.filter_filter, List.filter_filter]
  refine List.filter_congr fun x _ => ?_
  simp only [Function.comp_apply]
  split <;> rfl

/-- Nothing has happened. -/
theorem Stays.refl (hd : findIn live d.orderId = some d) : Stays live live d d 0 :=
  ⟨hd, hd, rfl, rfl, List.Sublist.refl _⟩

/-- Two parts of a run. -/
theorem Stays.trans (h : Stays live live' d d' n) (h' : Stays live' live'' d' d'' n') :
    Stays live live'' d d'' (n + n') := by
  have hsame := h.same
  have hid : d'.orderId = d.orderId := by rw [hsame]
  have hline : ∀ l, lineOf l d' = lineOf l d := fun l => by rw [hsame]; rfl
  refine ⟨h.found, hid ▸ h'.stays, ?_, ?_, ?_⟩
  · rw [h'.same, hsame]
  · have hshares := h.shares
    have hshares' := h'.shares
    omega
  · have hahead := h'.ahead
    rw [hline, hline, hid] at hahead
    exact hahead.trans h.ahead

/-- Orders leave and new ones arrive, while `d` stays. -/
theorem stays_keep (hnodup : (live.map OrderData.orderId).Nodup) (p : OrderData → Bool)
    (new : List OrderData) (hnew : ∀ x ∈ new, x.orderId ≠ d.orderId)
    (hd : findIn live d.orderId = some d)
    (hd' : findIn (live.filter p ++ new) d.orderId = some d') :
    Stays live (live.filter p ++ new) d d' 0 := by
  obtain ⟨hmem, -⟩ := mem_of_findIn hd
  have hkept : findIn (live.filter p ++ new) d.orderId = findIn (live.filter p) d.orderId := by
    have hnone : findIn new d.orderId = none := findIn_eq_none.mpr hnew
    unfold findIn at hnone ⊢
    rw [List.find?_append, hnone, Option.or_none]
  have hfilter := hkept.symm.trans hd'
  rw [findIn_filter p hnodup, hd, Option.filter_eq_some_iff, Option.some.injEq] at hfilter
  obtain ⟨rfl, hp⟩ := hfilter
  refine ⟨hd, hd', rfl, rfl, ?_⟩
  -- `ahead` looks for the id, and only `d` has it
  have hunique : ∀ x ∈ lineOf live d, x.orderId = d.orderId → p x = true := fun x hx hid => by
    rwa [List.inj_on_of_nodup_map hnodup (mem_lineOf.mp hx).1 hmem hid]
  have hline : ∃ x ∈ (lineOf live d).filter p, x.orderId = d.orderId :=
    ⟨d, List.mem_filter.mpr ⟨mem_lineOf.mpr ⟨hmem, rfl, rfl, rfl⟩, hp⟩, rfl⟩
  rw [lineOf_append, lineOf_filter, ahead_append hline, ahead_filter hunique]
  exact List.filter_sublist.map _

/-- Other orders leave. -/
theorem stays_filter (hnodup : (live.map OrderData.orderId).Nodup) {p : OrderData → Bool}
    (hd : findIn live d.orderId = some d) (hd' : findIn (live.filter p) d.orderId = some d') :
    Stays live (live.filter p) d d' 0 := by
  have hkeep : findIn (live.filter p ++ []) d.orderId = some d' →
      Stays live (live.filter p ++ []) d d' 0 :=
    stays_keep hnodup p [] (by simp) hd
  rw [List.append_nil] at hkeep
  exact hkeep hd'

/-- Other orders arrive. -/
theorem stays_append (hnodup : (live.map OrderData.orderId).Nodup) {x : OrderData}
    (hx : x.orderId ≠ d.orderId) (hd : findIn live d.orderId = some d)
    (hd' : findIn (live ++ [x]) d.orderId = some d') : Stays live (live ++ [x]) d d' 0 := by
  have hkeep : findIn (live.filter (fun _ => true) ++ [x]) d.orderId = some d' →
      Stays live (live.filter (fun _ => true) ++ [x]) d d' 0 :=
    stays_keep hnodup _ [x] (by simpa using hx) hd
  rw [List.filter_true] at hkeep
  exact hkeep hd'

/-- An order loses some of its shares, while `d` stays. -/
theorem stays_reduce (hd : findIn live d.orderId = some d)
    (hd' : findIn (reducedBy live id qty) d.orderId = some d')
    (hqty : id = d.orderId → qty < d.sharesRemaining) :
    Stays live (reducedBy live id qty) d d' (if id = d.orderId then qty.toNat else 0) := by
  have hahead : ((ahead OrderData.orderId d.orderId (lineOf (reducedBy live id qty) d)).map
      OrderData.orderId).Sublist
        ((ahead OrderData.orderId d.orderId (lineOf live d)).map OrderData.orderId) := by
    rw [lineOf_reducedBy, ahead_map fun x => by split <;> rfl, List.map_map,
      List.map_congr_left (g := OrderData.orderId) fun x _ => ?_]
    simp only [Function.comp_apply]
    split <;> rfl
  have hd'' := hd'
  rw [findIn_reducedBy, hd, Option.map_some, Option.some.injEq] at hd''
  by_cases hid : id = d.orderId
  · rw [if_pos hid.symm] at hd''
    rw [if_pos hid]
    have hle := UInt32.lt_iff_toNat_lt.mp (hqty hid)
    refine ⟨hd, hd', by rw [← hd''], ?_, hahead⟩
    rw [← hd'', UInt32.toNat_sub_of_le _ _ (UInt32.le_iff_toNat_le.mpr hle.le)]
    omega
  · rw [if_neg (Ne.symm hid)] at hd''
    rw [if_neg hid]
    exact ⟨hd, hd', by rw [← hd''], by rw [← hd'', Nat.add_zero], hahead⟩

/-- A reduction of the order or of another. -/
theorem stays_reduceIn (hnodup : (live.map OrderData.orderId).Nodup)
    (hd : findIn live d.orderId = some d)
    (hd' : findIn (reduceIn live id qty) d.orderId = some d') :
    Stays live (reduceIn live id qty) d d' (if id = d.orderId then qty.toNat else 0) := by
  unfold reduceIn at hd' ⊢
  cases hfind : findIn live id with
  | none =>
      rw [hfind] at hd'
      have hne : id ≠ d.orderId := fun he => by rw [he, hd] at hfind; cases hfind
      rw [if_neg hne]
      obtain rfl := Option.some.inj (hd.symm.trans hd')
      exact .refl hd
  | some x =>
      simp only [hfind] at hd' ⊢
      revert hd'
      split
      · -- all shares are gone, so it was another order
        intro hd'
        have hne : id ≠ d.orderId := fun he => (mem_without.mp (mem_of_findIn hd').1).2 (by
          rw [(mem_of_findIn hd').2, he])
        rw [if_neg hne]
        exact stays_filter hnodup hd hd'
      · next hqty =>
          refine fun hd' => stays_reduce hd hd' fun he => ?_
          rw [he, hd, Option.some.injEq] at hfind
          rw [hfind]
          exact UInt32.not_le.mp hqty

/-- Every event leaves an order that stays live in its place. -/
theorem stays_liveStep (hnodup : (live.map OrderData.orderId).Nodup)
    (hd : findIn live d.orderId = some d) (hd' : findIn (liveStep live c) d.orderId = some d') :
    Stays live (liveStep live c) d d' (c.takes d.orderId) := by
  have hsame : ∀ {d'}, findIn live d.orderId = some d' → Stays live live d d' 0 := fun h => by
    obtain rfl := Option.some.inj (hd.symm.trans h)
    exact .refl hd
  have hfresh : ∀ {id}, findIn live id = none → id ≠ d.orderId := fun h he => by
    rw [he, hd] at h
    cases h
  revert hd'
  cases c with
  | addOrder locate id bsi qty px ts mpid attributed =>
      simp only [liveStep]
      split
      · exact hsame
      · next hnew =>
          have hne : id ≠ d.orderId := hfresh (by simpa using hnew)
          exact stays_append hnodup hne hd
  | orderExecuted locate id execQty matchNo => exact stays_reduceIn hnodup hd
  | orderExecutedWithPrice locate id execQty matchNo printable execPx =>
      exact stays_reduceIn hnodup hd
  | orderCancel locate id cancelledQty => exact stays_reduceIn hnodup hd
  | orderDelete locate id => exact stays_filter hnodup hd
  | orderReplace locate oldId newId newQty newPx ts =>
      simp only [liveStep]
      split
      · exact hsame
      · split
        · exact hsame
        · next hnew =>
            have hne : newId ≠ d.orderId := hfresh (by simpa using hnew)
            exact stays_keep hnodup _ _ (by simpa [Market.replacement] using hne) hd
  | crossTrade locate xtype =>
      simp only [liveStep]
      split
      · exact stays_filter hnodup hd
      · exact hsame
  | stockDirectory _ _ _ _ _ _ _ _ _ _ _ _ _ => exact hsame
  | tradingAction _ _ _ _ => exact hsame
  | regSho _ _ => exact hsame
  | nonCrossTrade _ _ _ _ => exact hsame
  | brokenTrade _ _ => exact hsame

end Edits

namespace Market

variable {caps : Capacities} {m : Market} {d : OrderData} {cs : List Call}

/-- What takes effect leaves the order in its place. -/
theorem stays_effect {live : List OrderData} {d' : OrderData} {effect : Option Call}
    (hnodup : (live.map OrderData.orderId).Nodup) (hd : findIn live d.orderId = some d)
    (hd' : findIn (liveEffect live effect) d.orderId = some d') :
    Stays live (liveEffect live effect) d d' (effect.toList.map (Call.takes d.orderId)).sum := by
  cases effect with
  | none =>
      obtain rfl := Option.some.inj (hd.symm.trans hd')
      exact .refl hd
  | some c =>
      rw [Option.toList_some, List.map_singleton, List.sum_singleton]
      exact stays_liveStep hnodup hd hd'

/-- The order stays in its place through a run in which it is always live. -/
theorem stays_run (caps : Capacities) (cs : List Call) (hd : findIn m.live d.orderId = some d)
    (hlive : ∀ pre, pre <+: cs → (findIn (run (step caps) m pre).live d.orderId).isSome) :
    ∃ d', Stays m.live (run (step caps) m cs).live d d'
      ((effects caps m cs).map (Call.takes d.orderId)).sum := by
  refine prefix_induction (P := fun pre => ∃ d', Stays m.live (run (step caps) m pre).live d d'
    ((effects caps m pre).map (Call.takes d.orderId)).sum) cs ⟨d, .refl hd⟩
    fun pre c hpre ⟨d', ih⟩ => ?_
  have hid : d'.orderId = d.orderId := by rw [ih.same]
  obtain ⟨d'', hd''⟩ := Option.isSome_iff_exists.mp (hlive _ hpre)
  rw [run_concat, step_live_effect, ← hid] at hd''
  have hstep := stays_effect (run (step caps) m pre).distinct (hid ▸ ih.stays) hd''
  rw [← step_live_effect, hid] at hstep
  refine ⟨d'', ?_⟩
  rw [run_concat, effects_concat, List.map_append, List.sum_append]
  exact ih.trans hstep

end Market

/-! ## The queues of the engine -/

namespace MatchingEngine

variable {e : MatchingEngine} {caps : Capacities} {m : Market} {d : OrderData}
  {id : OrderReferenceNumber}

/-- The ids in front of an order in the queue of its level. -/
def idsAhead (e : MatchingEngine) (id : OrderReferenceNumber) : List OrderReferenceNumber :=
  match e.orderOf id with
  | none => []
  | some d =>
      match (e.bookView d.locate d.side).find? fun v => v.orders.any fun x => x.orderId = id with
      | none => []
      | some v => (ahead OrderData.orderId id v.orders).map OrderData.orderId

/-- The queue of a live order, as its engine shows it. An order at the reserved price has a level of
its own. -/
theorem Refines.idsAhead_eq (h : e.Refines caps m) (hd : findIn m.live id = some d) :
    e.idsAhead id = if d.priceCents = kEmptyPrice then []
      else (ahead OrderData.orderId id (lineOf m.live d)).map OrderData.orderId := by
  obtain ⟨hmem, rfl⟩ := mem_of_findIn hd
  have hresting : d ∈ restingOn m.live d.locate d.side := by simpa [restingOn] using hmem
  have hcontains : ∀ g ∈ bookOf m.live d.locate d.side,
      (g.2.any fun x => x.orderId = d.orderId) = true → d ∈ g.2 := by
    intro g hg hany
    obtain ⟨x, hx, hid⟩ := List.any_eq_true.mp hany
    have hx' := (List.mem_filter.mp (mem_of_group hg hx)).1
    rwa [← List.inj_on_of_nodup_map m.distinct hx' hmem (by simpa using hid)]
  unfold idsAhead
  rw [h.orderOf_eq, Market.find_eq, hd]
  simp only [h.bookView_eq]
  cases hfind : ((m.book d.locate d.side).map LevelView.ofGroup).find? fun v =>
      v.orders.any fun x => x.orderId = d.orderId with
  | none =>
      -- the group of the order would have been found
      exfalso
      obtain ⟨g, hg, hdg⟩ : ∃ g ∈ bookOf m.live d.locate d.side, d ∈ g.2 := exists_group hresting
      have hnone := List.find?_eq_none.mp hfind _ (List.mem_map_of_mem hg)
      exact hnone (List.any_eq_true.mpr ⟨d, hdg, by simp⟩)
  | some v =>
      obtain ⟨g, hg, rfl⟩ := List.mem_map.mp (List.mem_of_find?_eq_some hfind)
      have hany := List.find?_some (p := fun v : LevelView => v.orders.any fun x =>
        decide (x.orderId = d.orderId)) hfind
      have hdg := hcontains g hg hany
      have hkey : d.priceCents = g.1 := (ladder_grouped _ g hg).2 d hdg
      show (ahead _ _ g.2).map _ = _
      by_cases hpx : d.priceCents = kEmptyPrice
      · -- orders at this price do not share a level
        rw [if_pos hpx]
        have hunshared : (pricePolicy d.side).shared g.1 = false := by
          rw [← hkey]
          exact Bool.eq_false_iff.mpr fun hshared => pricePolicy_shared.mp hshared hpx
        obtain ⟨x, hx⟩ := unshared_group hg hunshared
        rw [hx] at hdg ⊢
        obtain rfl := List.mem_singleton.mp hdg
        simp [ahead]
      · rw [if_neg hpx]
        have hshared : (pricePolicy d.side).shared g.1 = true := by
          rw [← hkey]
          exact pricePolicy_shared.mpr hpx
        rw [group_eq (pricePolicy_lawful _) hg hshared, ← hkey]
        rfl

/-- An order that is live throughout a part of a run keeps everything but its shares, these go down
by what the events took that took effect, and nobody gets in front of it. -/
theorem keeps_its_place (oc lc : UInt64) (pre rest : List Call) (id : OrderReferenceNumber)
    (hcap : oc.toNat < 4294967296) (hroomy : ∀ cs, cs <+: pre ++ rest → (after oc lc cs).Roomy)
    (hlive : ∀ mid, mid <+: rest → ((after oc lc (pre ++ mid)).orderOf id).isSome) :
    ∃ d d', (after oc lc pre).orderOf id = some d ∧
      (after oc lc (pre ++ rest)).orderOf id = some d' ∧
      d' = { d with sharesRemaining := d'.sharesRemaining } ∧
      d'.sharesRemaining.toNat +
          (((after oc lc pre).effects rest).map (Call.takes id)).sum = d.sharesRemaining.toNat ∧
      ((after oc lc (pre ++ rest)).idsAhead id).Sublist ((after oc lc pre).idsAhead id) := by
  have hrun := refines_from oc lc hcap hroomy
  have hsame : ∀ mid, after oc lc (pre ++ mid) = run step (after oc lc pre) mid := fun mid =>
    run_append pre mid
  have hfind : ∀ mid, mid <+: rest → (after oc lc (pre ++ mid)).orderOf id = findIn (run
      (Market.step ⟨oc.toNat, lc.toNat⟩) (Market.after ⟨oc.toNat, lc.toNat⟩ pre) mid).live id :=
    fun mid hmid => by rw [hsame, (hrun mid hmid).orderOf_eq]; rfl
  have hstart := hfind [] List.nil_prefix
  rw [List.append_nil, run_nil] at hstart
  obtain ⟨d, hd⟩ := Option.isSome_iff_exists.mp (hlive [] List.nil_prefix)
  rw [List.append_nil] at hd
  obtain ⟨-, rfl⟩ := mem_of_findIn (hstart.symm.trans hd)
  obtain ⟨d', hstays⟩ := Market.stays_run ⟨oc.toNat, lc.toNat⟩ rest
    (hstart.symm.trans hd) fun mid hmid => hfind mid hmid ▸ hlive mid hmid
  have hend := hfind rest (List.prefix_refl _)
  refine ⟨d, d', hd, hend.trans hstays.stays, hstays.same, ?_, ?_⟩
  · rw [effects_eq hrun]
    exact hstays.shares
  · have hprice : d'.priceCents = d.priceCents := by rw [hstays.same]
    have hline : ∀ live, lineOf live d' = lineOf live d := fun live => by rw [hstays.same]; rfl
    have hbefore : (after oc lc pre).idsAhead d.orderId = _ :=
      (hrun [] List.nil_prefix).idsAhead_eq hstays.found
    rw [hsame, (hrun rest (List.prefix_refl _)).idsAhead_eq hstays.stays, hbefore, hprice, hline]
    split
    · exact List.Sublist.refl _
    · exact hstays.ahead

/-- Three bids at one price. -/
def queueing : List Call :=
  [.addOrder 1 10 (ascii 'B') 300 1000000 1 MPID.blank false,
    .addOrder 1 11 (ascii 'B') 200 1000000 2 MPID.blank false,
    .addOrder 1 12 (ascii 'B') 100 1000000 3 MPID.blank false]

/-- The first of them leaves, the second is replaced and so goes to the end, the third loses
shares. -/
def advancing : List Call :=
  [.orderExecuted 1 10 300 77, .orderReplace 1 11 13 200 1000000 4, .orderCancel 1 12 40]

/-- An order behind two others that leave. -/
theorem keeps_its_place_sample : ∃ d d', (after 8 8 queueing).orderOf 12 = some d ∧
    (after 8 8 (queueing ++ advancing)).orderOf 12 = some d' ∧
    d' = { d with sharesRemaining := d'.sharesRemaining } ∧
    d'.sharesRemaining.toNat +
        (((after 8 8 queueing).effects advancing).map (Call.takes 12)).sum =
      d.sharesRemaining.toNat ∧
    ((after 8 8 (queueing ++ advancing)).idsAhead 12).Sublist
      ((after 8 8 queueing).idsAhead 12) := by
  have hlive : ∀ mid ∈ advancing.inits, ((after 8 8 (queueing ++ mid)).orderOf 12).isSome := by
    decide +kernel
  exact keeps_its_place 8 8 queueing advancing 12 (by decide)
    (fun cs _ => after_roomy 8 8 cs (by decide) (by decide))
    fun mid hmid => hlive mid ((List.mem_inits _ _).mpr hmid)

example : (after 8 8 queueing).idsAhead 12 = [10, 11] ∧
    (after 8 8 (queueing ++ advancing)).idsAhead 12 = [] := by decide +kernel

end MatchingEngine
end ItchParser
