import ItchParser.Market

/-!
# The number of levels

How the number of levels of all books changes when an order arrives, leaves or loses shares, and
when a book is cleared. Only the book of the order's locate changes.
-/

namespace ItchParser

open Ladder OrderBook

variable {live live' : List OrderData} {d : OrderData} {locate : StockLocate} {s : Side}
  {id : OrderReferenceNumber} {qty : Shares}

/-- A change of the levels of one book. -/
theorem levelCount_change (hothers : ∀ l, l ≠ locate → levelsAt live' l = levelsAt live l) :
    levelCount live' + levelsAt live locate = levelCount live + levelsAt live' locate := by
  have hupdate : levelsAt live' =
      Function.update (levelsAt live) locate (levelsAt live' locate) := by
    funext l
    by_cases hl : l = locate
    · rw [hl, Function.update_self]
    · rw [Function.update_of_ne hl, hothers l hl]
  unfold levelCount
  rw [hupdate, Function.update_self]
  exact sum_update_add _ _ _

/-! ## Arrivals -/

/-- A new order rests behind the others on its side. -/
theorem restingOn_append :
    restingOn (live ++ [d]) locate s =
      restingOn live locate s ++ if d.locate = locate ∧ d.side = s then [d] else [] := by
  unfold restingOn
  rw [List.filter_append, List.filter_singleton]
  by_cases h : d.locate = locate ∧ d.side = s <;> simp [h]

/-- An order changes its own side of its own book only. -/
theorem bookOf_append_of_ne (hne : ¬ (d.locate = locate ∧ d.side = s)) :
    bookOf (live ++ [d]) locate s = bookOf live locate s := by
  rw [bookOf, restingOn_append, if_neg hne, List.append_nil, bookOf]

/-- A new order goes behind the orders at its price. -/
theorem bookOf_append : bookOf (live ++ [d]) d.locate d.side =
    enqueue (pricePolicy d.side) OrderData.priceCents d (bookOf live d.locate d.side) := by
  rw [bookOf, restingOn_append, if_pos ⟨rfl, rfl⟩, ladder_concat]
  rfl

/-- A new order opens a level or not. -/
theorem length_bookOf_append : (bookOf (live ++ [d]) d.locate d.side).length =
    (bookOf live d.locate d.side).length + if opensFor live d then 1 else 0 := by
  have hsorted : Sorted (pricePolicy d.side) (bookOf live d.locate d.side) :=
    ladder_sorted (pricePolicy_lawful _) _
  rw [bookOf_append, length_enqueue (pricePolicy_lawful _) hsorted]
  rfl

/-- A new order opens a level of its book or not. -/
theorem levelsAt_append :
    levelsAt (live ++ [d]) d.locate =
      levelsAt live d.locate + if opensFor live d then 1 else 0 := by
  have hown : (bookOf (live ++ [d]) d.locate d.side).length = _ := length_bookOf_append
  unfold levelsAt
  cases hs : d.side with
  | buy =>
      rw [hs] at hown
      rw [hown, bookOf_append_of_ne (s := .sell) (by simp [hs])]
      omega
  | sell =>
      rw [hs] at hown
      rw [hown, bookOf_append_of_ne (s := .buy) (by simp [hs])]
      omega

/-- A new order opens a level or not. -/
theorem levelCount_append :
    levelCount (live ++ [d]) = levelCount live + if opensFor live d then 1 else 0 := by
  have hothers : ∀ l, l ≠ d.locate → levelsAt (live ++ [d]) l = levelsAt live l := by
    intro l hl
    unfold levelsAt
    rw [bookOf_append_of_ne fun h => hl h.1.symm, bookOf_append_of_ne fun h => hl h.1.symm]
  have hchange := levelCount_change hothers
  rw [levelsAt_append] at hchange
  omega

/-! ## Removals -/

/-- Some of the orders on a side. -/
theorem restingOn_filter (p : OrderData → Bool) :
    restingOn (live.filter p) locate s = (restingOn live locate s).filter p := by
  unfold restingOn
  rw [List.filter_filter, List.filter_filter]
  exact List.filter_congr fun x _ => Bool.and_comm _ _

/-- The book of some of the orders. -/
theorem bookOf_filter (p : OrderData → Bool) :
    bookOf (live.filter p) locate s = restrict p (bookOf live locate s) := by
  rw [bookOf, restingOn_filter, ladder_filter (pricePolicy_lawful s)]
  rfl

/-- The book without an order. -/
theorem bookOf_without (live : List OrderData) (id : OrderReferenceNumber) (locate : StockLocate)
    (s : Side) :
    bookOf (without live id) locate s = restrict (fun d => d.orderId ≠ id) (bookOf live locate s) :=
  bookOf_filter _

/-- Fewer orders have fewer levels. -/
theorem levelsAt_filter_le (p : OrderData → Bool) (locate : StockLocate) :
    levelsAt (live.filter p) locate ≤ levelsAt live locate := by
  unfold levelsAt
  rw [bookOf_filter, bookOf_filter]
  exact Nat.add_le_add (List.length_filterMap_le _ _) (List.length_filterMap_le _ _)

/-- Fewer orders need no more levels. -/
theorem levelCount_filter_le (p : OrderData → Bool) :
    levelCount (live.filter p) ≤ levelCount live :=
  Finset.sum_le_sum fun l _ => levelsAt_filter_le p l

/-- An order that is not on a side does not matter there. -/
theorem restingOn_without_of_ne
    (hd : ∀ x ∈ live, x.orderId = id → ¬ (x.locate = locate ∧ x.side = s)) :
    restingOn (without live id) locate s = restingOn live locate s := by
  unfold without
  rw [restingOn_filter]
  refine List.filter_eq_self.mpr fun x hx => ?_
  obtain ⟨hmem, hx⟩ := List.mem_filter.mp hx
  simp only [decide_eq_true_eq] at hx
  simpa using fun hid => hd x hmem hid hx

/-- Ids are unique, so an id stands for one order. -/
theorem without_eq_filter (hnodup : (live.map OrderData.orderId).Nodup) (hd : d ∈ live) :
    without live d.orderId = live.filter fun x => x ≠ d := by
  refine List.filter_congr fun x hx => ?_
  rw [decide_eq_decide, not_iff_not]
  exact ⟨List.inj_on_of_nodup_map hnodup hx hd, fun he => by rw [he]⟩

/-- An order that leaves is one less. -/
theorem length_without (hnodup : (live.map OrderData.orderId).Nodup) (hd : d ∈ live) :
    (without live d.orderId).length + 1 = live.length := by
  rw [without_eq_filter hnodup hd]
  exact Intrusive.length_filter_ne (hnodup.of_map _) hd

/-- A removed order takes at most one level with it. -/
theorem levelsAt_without_le (hnodup : (live.map OrderData.orderId).Nodup) (hd : d ∈ live) :
    levelsAt live d.locate ≤ levelsAt (without live d.orderId) d.locate + 1 := by
  have hunique : ∀ x ∈ live, x.orderId = d.orderId → x = d := fun x hx hid =>
    List.inj_on_of_nodup_map hnodup hx hd hid
  have hother : ∀ s, s ≠ d.side → (bookOf (without live d.orderId) d.locate s).length =
      (bookOf live d.locate s).length := by
    intro s hs
    unfold bookOf
    rw [restingOn_without_of_ne fun x hx hid h => hs (by rw [← h.2, hunique x hx hid])]
  have hown : (bookOf live d.locate d.side).length ≤
      (bookOf (without live d.orderId) d.locate d.side).length + 1 := by
    rw [without_eq_filter hnodup hd, bookOf_filter]
    refine length_le_restrict (x := d) (fun g hg => (ladder_grouped _ _ hg).1) ?_ fun y hy => ?_
    · refine (ladder_perm (pricePolicy d.side) OrderData.priceCents _).nodup_iff.mpr ?_
      exact (hnodup.of_map _).filter _
    · simpa using hy
  unfold levelsAt
  cases hs : d.side with
  | buy =>
      have hsell := hother .sell (by simp [hs])
      rw [hs] at hown
      omega
  | sell =>
      have hbuy := hother .buy (by simp [hs])
      rw [hs] at hown
      omega

/-- A removal changes the number of levels as its result code says. -/
theorem levelCount_without (hnodup : (live.map OrderData.orderId).Nodup) (hd : d ∈ live) :
    levelCount (without live d.orderId) + (if removalCode live d = 2 then 1 else 0) =
      levelCount live := by
  have hothers : ∀ l, l ≠ d.locate → levelsAt (without live d.orderId) l = levelsAt live l := by
    intro l hl
    have hne : ∀ s, ∀ x ∈ live, x.orderId = d.orderId → ¬ (x.locate = l ∧ x.side = s) := by
      intro s x hx hid h
      rw [List.inj_on_of_nodup_map hnodup hx hd hid] at h
      exact hl h.1.symm
    unfold levelsAt bookOf
    rw [restingOn_without_of_ne (hne _), restingOn_without_of_ne (hne _)]
  have hchange := levelCount_change hothers
  have hle := levelsAt_without_le hnodup hd
  have hge : levelsAt (without live d.orderId) d.locate ≤ levelsAt live d.locate :=
    levelsAt_filter_le _ _
  unfold removalCode
  by_cases hlt : levelsAt (without live d.orderId) d.locate < levelsAt live d.locate
  · rw [if_pos hlt, if_pos rfl]
    omega
  · rw [if_neg hlt, if_neg (by decide)]
    omega

/-- A side of a book without orders. -/
theorem restingOn_of_other (hl : ∀ x ∈ live, x.locate ≠ locate) : restingOn live locate s = [] :=
  List.filter_eq_nil_iff.mpr fun x hx => by simp [hl x hx]

/-- A book without orders has no levels. -/
theorem levelsAt_of_other (hl : ∀ x ∈ live, x.locate ≠ locate) : levelsAt live locate = 0 := by
  unfold levelsAt bookOf
  rw [restingOn_of_other hl, restingOn_of_other hl]
  rfl

/-- Clearing a book leaves the others alone. -/
theorem bookOf_clear_of_ne {l : StockLocate} (hl : l ≠ locate) :
    bookOf (live.filter fun d => d.locate ≠ locate) l s = bookOf live l s := by
  rw [bookOf, restingOn_filter, List.filter_eq_self.mpr fun x hx => ?_, bookOf]
  have hx' := (List.mem_filter.mp hx).2
  simp only [decide_eq_true_eq] at hx'
  simpa using fun he => hl (hx'.1.symm.trans he)

/-- Clearing a book takes its levels away. -/
theorem levelCount_clear (live : List OrderData) (locate : StockLocate) :
    levelCount (live.filter fun d => d.locate ≠ locate) + levelsAt live locate =
      levelCount live := by
  have hothers : ∀ l, l ≠ locate →
      levelsAt (live.filter fun d => d.locate ≠ locate) l = levelsAt live l := by
    intro l hl
    unfold levelsAt
    rw [bookOf_clear_of_ne hl, bookOf_clear_of_ne hl]
  have hnone : levelsAt (live.filter fun d => d.locate ≠ locate) locate = 0 :=
    levelsAt_of_other fun x hx => by simpa using (List.mem_filter.mp hx).2
  have hchange := levelCount_change hothers
  rwa [hnone, Nat.add_zero] at hchange

/-! ## Executions -/

/-- Taking shares off an order keeps every level. -/
theorem bookOf_reducedBy : bookOf (reducedBy live id qty) locate s =
    rename (fun d => if d.orderId = id then
      { d with sharesRemaining := d.sharesRemaining - qty } else d) (bookOf live locate s) := by
  have hresting : restingOn (reducedBy live id qty) locate s =
      (restingOn live locate s).map fun d => if d.orderId = id then
        { d with sharesRemaining := d.sharesRemaining - qty } else d := by
    unfold restingOn reducedBy
    rw [List.filter_map]
    congr 1
    refine List.filter_congr fun x _ => ?_
    simp only [Function.comp_apply]
    split <;> rfl
  rw [bookOf, hresting, ladder_map fun x _ => ?_]
  · rfl
  · split <;> rfl

/-- A partial reduction keeps the levels of a book. -/
theorem levelsAt_reducedBy : levelsAt (reducedBy live id qty) locate = levelsAt live locate := by
  unfold levelsAt
  rw [bookOf_reducedBy, bookOf_reducedBy]
  simp [rename]

/-- A partial reduction keeps the levels. -/
theorem levelCount_reducedBy : levelCount (reducedBy live id qty) = levelCount live :=
  Finset.sum_congr rfl fun _ _ => levelsAt_reducedBy

end ItchParser
