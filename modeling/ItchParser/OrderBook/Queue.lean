import ItchParser.PriceLevel
import Mathlib.Algebra.BigOperators.Group.List.Basic
import Mathlib.Algebra.GroupWithZero.Nat

/-!
# A price level's queue of orders

`PriceLevel.Queues` says that the doubly linked list of a level consists of the given order slots,
front first, and that the aggregates of the level count them. `pushBack` and `unlink` keep it. The
aggregates are machine words, so they are exact modulo the word size; a level with few enough orders
has the exact numbers.
-/

namespace ItchParser

open Intrusive

/-- The shares that the orders `os` have left, in total. -/
def sharesOf (orders : Ptr → Order) (os : List Ptr) : Nat :=
  (os.map fun p => (orders p).sharesRemaining.toNat).sum

section Shares

variable {orders orders' : Ptr → Order} {os : List Ptr}

/-- The shares of orders with the same data. -/
theorem sharesOf_congr (hdata : ∀ q ∈ os, (orders' q).toOrderData = (orders q).toOrderData) :
    sharesOf orders' os = sharesOf orders os := by
  have hmap : os.map (fun p => (orders' p).sharesRemaining.toNat) =
      os.map fun p => (orders p).sharesRemaining.toNat :=
    List.map_congr_left fun p hp => by
      rw [show (orders' p).sharesRemaining = (orders p).sharesRemaining from
        congrArg OrderData.sharesRemaining (hdata p hp)]
  unfold sharesOf
  rw [hmap]

/-- The shares of two parts. -/
theorem sharesOf_append (xs ys : List Ptr) :
    sharesOf orders (xs ++ ys) = sharesOf orders xs + sharesOf orders ys := by
  simp [sharesOf]

/-- The shares of the first order and the others. -/
theorem sharesOf_cons (p : Ptr) (ps : List Ptr) :
    sharesOf orders (p :: ps) = (orders p).sharesRemaining.toNat + sharesOf orders ps := by
  simp [sharesOf]

end Shares

namespace PriceLevel

/-- The queue of `lvl` is `os`. -/
structure Queues (lvl : PriceLevel) (orders : Ptr → Order) (os : List Ptr) : Prop where
  linked : Linked (fun p => (orders p).next) (fun p => (orders p).prev) os
  head : lvl.headOrder = os.head?
  tail : lvl.tailOrder = os.getLast?
  count : lvl.orderCount = UInt32.ofNat os.length
  shares : lvl.totalShares = UInt64.ofNat (sharesOf orders os)

variable {lvl lvl' : PriceLevel} {orders orders' : Ptr → Order} {os front behind : List Ptr}
  {o q : Ptr}

/-- A queue depends on the orders in it and on four fields of its level. -/
theorem Queues.congr (h : lvl.Queues orders os) (hhead : lvl'.headOrder = lvl.headOrder)
    (htail : lvl'.tailOrder = lvl.tailOrder) (hcount : lvl'.orderCount = lvl.orderCount)
    (hshares : lvl'.totalShares = lvl.totalShares) (horders : ∀ p ∈ os, orders' p = orders p) :
    lvl'.Queues orders' os := by
  have hdata : ∀ p ∈ os, (orders' p).toOrderData = (orders p).toOrderData :=
    fun p hp => congrArg _ (horders p hp)
  refine ⟨h.linked.congr fun p hp => ?_, hhead.trans h.head, htail.trans h.tail,
    hcount.trans h.count, hshares.trans ?_⟩
  · rw [horders p hp]
    exact ⟨rfl, rfl⟩
  · rw [h.shares, sharesOf_congr hdata]

/-! ## Appending -/

/-- The new order gets the old tail in front of it. -/
theorem pushBack_new (hne : lvl.tailOrder ≠ some o) :
    (lvl.pushBack orders o).2 o = { orders o with next := none, prev := lvl.tailOrder } := by
  unfold pushBack
  cases ht : lvl.tailOrder with
  | none => simp
  | some t =>
      have hot : o ≠ t := fun he => hne (he ▸ ht)
      simp [modify_of_ne hot]

/-- The old tail is linked to the new order, and the others stay. -/
theorem pushBack_other (hq : q ≠ o) :
    (lvl.pushBack orders o).2 q =
      { orders q with next := if lvl.tailOrder = some q then some o else (orders q).next } := by
  unfold pushBack
  cases ht : lvl.tailOrder with
  | none => simp [modify_of_ne hq]
  | some t =>
      simp only [modify_apply, if_neg hq, Option.some.injEq, eq_comm (a := t)]
      split <;> rfl

/-- Appending changes no order's data. -/
theorem pushBack_data (hne : lvl.tailOrder ≠ some o) (q : Ptr) :
    ((lvl.pushBack orders o).2 q).toOrderData = (orders q).toOrderData := by
  by_cases hq : q = o
  · rw [hq, pushBack_new hne]
  · rw [pushBack_other hq]

/-- Orders outside the queue are not touched. -/
theorem Queues.pushBack_frame (h : lvl.Queues orders os) (hqo : q ≠ o) (hq : q ∉ os) :
    (lvl.pushBack orders o).2 q = orders q := by
  have hne : lvl.tailOrder ≠ some q := by
    rw [h.tail]
    exact fun he => hq (List.mem_of_getLast? he)
  rw [pushBack_other hqo, if_neg hne]

/-- Appending keeps the level's price, side and place. -/
theorem pushBack_place (lvl : PriceLevel) (orders : Ptr → Order) (o : Ptr) :
    (lvl.pushBack orders o).1.priceCents = lvl.priceCents ∧
      (lvl.pushBack orders o).1.side = lvl.side ∧
      (lvl.pushBack orders o).1.nextLevel = lvl.nextLevel ∧
      (lvl.pushBack orders o).1.prevLevel = lvl.prevLevel := by
  unfold pushBack
  cases lvl.tailOrder <;> exact ⟨rfl, rfl, rfl, rfl⟩

/-- `push_back` puts the order at the back of the queue. -/
theorem Queues.pushBack (h : lvl.Queues orders os) (hfresh : o ∉ os) :
    (lvl.pushBack orders o).1.Queues (lvl.pushBack orders o).2 (os ++ [o]) := by
  have hne : lvl.tailOrder ≠ some o := by
    rw [h.tail]
    exact fun he => hfresh (List.mem_of_getLast? he)
  have hlinked : Linked (fun p => ((lvl.pushBack orders o).2 p).next)
      (fun p => ((lvl.pushBack orders o).2 p).prev) (os ++ [o]) := by
    have hnq : ∀ y ∈ os ++ [], y ≠ o := by
      intro y hy he
      exact hfresh (by simpa [he] using hy)
    refine Linked.insert (by simpa using h.linked) (by simpa using hfresh) ?_ ?_
      (fun y hy => ?_) (fun y hy => ?_)
    · simp [pushBack_new hne]
    · simp [pushBack_new hne, h.tail]
    · simp [pushBack_other (hnq y hy), h.tail]
    · simp [pushBack_other (hnq y hy)]
  have hshares : sharesOf (lvl.pushBack orders o).2 (os ++ [o]) =
      sharesOf orders os + (orders o).sharesRemaining.toNat := by
    rw [sharesOf_congr fun q _ => pushBack_data hne q, sharesOf_append]
    simp [sharesOf]
  refine ⟨hlinked, ?_, ?_, ?_, ?_⟩
  · -- only the first order of a queue becomes its head
    unfold PriceLevel.pushBack
    cases ht : lvl.tailOrder with
    | none =>
        have hnil : os = [] := by
          rw [← List.getLast?_eq_none_iff, ← h.tail, ht]
        simp [hnil]
    | some t =>
        have hcons : os ≠ [] := by
          rintro rfl
          rw [h.tail] at ht
          cases ht
        simp only [h.head]
        rw [List.head?_append_of_ne_nil _ hcons]
  · unfold PriceLevel.pushBack
    cases lvl.tailOrder <;> simp
  · have hcount : (lvl.pushBack orders o).1.orderCount = lvl.orderCount + 1 := by
      unfold PriceLevel.pushBack
      cases lvl.tailOrder <;> rfl
    rw [hcount, h.count, List.length_append, List.length_singleton, UInt32.ofNat_add]
    rfl
  · have htotal : (lvl.pushBack orders o).1.totalShares =
        lvl.totalShares + (orders o).sharesRemaining.toUInt64 := by
      have hdata : ((lvl.pushBack orders o).2 o).toOrderData = (orders o).toOrderData :=
        pushBack_data hne o
      have hread : (lvl.pushBack orders o).1.totalShares =
          lvl.totalShares + ((lvl.pushBack orders o).2 o).sharesRemaining.toUInt64 := by
        unfold PriceLevel.pushBack
        cases lvl.tailOrder <;> rfl
      rw [hread, show ((lvl.pushBack orders o).2 o).sharesRemaining = (orders o).sharesRemaining
        from congrArg OrderData.sharesRemaining hdata]
    rw [htotal, h.shares, hshares, UInt64.ofNat_add, UInt64.ofNat_uInt32ToNat]

/-! ## Unlinking -/

section Unlink

variable {b n : Option Ptr}

/-- Unlinking relinks the neighbours `b` and `n` and clears the order's own links. -/
theorem unlink_orders (hprev : (orders o).prev = b) (hnext : (orders o).next = n)
    (hb : b ≠ some o) (hn : n ≠ some o) (q : Ptr) :
    (lvl.unlink orders o).2 q =
      if q = o then { orders o with next := none, prev := none }
      else { orders q with
        next := if b = some q then n else (orders q).next
        prev := if n = some q then b else (orders q).prev } := by
  subst hprev hnext
  unfold unlink
  cases hp : (orders o).prev with
  | none =>
      cases hx : (orders o).next with
      | none => simp [modify_apply, hp, hx]; split <;> simp_all
      | some y =>
          have hoy : o ≠ y := fun he => hn (by rw [hx, he])
          by_cases hq : q = o
          · subst hq; simp [modify_apply, hp, hx, hoy]
          · simp only [modify_apply, hp, hx, hq, ↓reduceIte, Option.some.injEq, reduceCtorEq,
              eq_comm (a := y)]
            split <;> rfl
  | some x =>
      have hox : o ≠ x := fun he => hb (by rw [hp, he])
      cases hx : (orders o).next with
      | none =>
          by_cases hq : q = o
          · subst hq; simp [modify_apply, hp, hx, hox]
          · simp only [modify_apply, hp, hx, hq, hox, ↓reduceIte, Option.some.injEq, reduceCtorEq,
              eq_comm (a := x)]
            split <;> rfl
      | some y =>
          have hoy : o ≠ y := fun he => hn (by rw [hx, he])
          by_cases hq : q = o
          · subst hq; simp [modify_apply, hp, hx, hox, hoy]
          · simp only [modify_apply, hp, hx, hq, hox, ↓reduceIte, Option.some.injEq,
              eq_comm (a := x), eq_comm (a := y)]
            split <;> split <;> rfl

/-- Unlinking moves an end of the level's queue only when the order was at that end. -/
theorem unlink_level (hprev : (orders o).prev = b) (hnext : (orders o).next = n)
    (hb : b ≠ some o) :
    (lvl.unlink orders o).1 =
      { lvl with
        headOrder := if b = none then n else lvl.headOrder
        tailOrder := if n = none then b else lvl.tailOrder
        orderCount := lvl.orderCount - 1 } := by
  subst hprev hnext
  unfold unlink
  cases hp : (orders o).prev with
  | none => cases hx : (orders o).next <;> simp [hp, hx]
  | some x =>
      have hox : o ≠ x := fun he => hb (by rw [hp, he])
      cases hx : (orders o).next <;> simp [modify_of_ne hox, hp, hx]

end Unlink

/-- The neighbours of an order in a queue. -/
theorem Queues.neighbours (h : lvl.Queues orders (front ++ o :: behind)) :
    (orders o).prev = front.getLast? ∧ (orders o).next = behind.head? ∧
      front.getLast? ≠ some o ∧ behind.head? ≠ some o := by
  have hnodup := h.linked.nodup
  have hfront : o ∉ front := fun hmem =>
    (List.nodup_append.mp hnodup).2.2 o hmem o (by simp) rfl
  have hbehind : o ∉ behind :=
    (List.nodup_cons.mp (List.nodup_append.mp hnodup).2.1).1
  exact ⟨h.linked.prev_eq, h.linked.next_eq, fun he => hfront (List.mem_of_getLast? he),
    fun he => hbehind (List.mem_of_mem_head? he)⟩

/-- Unlinking changes no order's data. What the level says does not matter for the orders. -/
theorem Queues.unlink_data (h : lvl.Queues orders (front ++ o :: behind)) (lvl' : PriceLevel)
    (q : Ptr) : ((lvl'.unlink orders o).2 q).toOrderData = (orders q).toOrderData := by
  obtain ⟨hprev, hnext, hb, hn⟩ := h.neighbours
  rw [unlink_orders hprev hnext hb hn]
  split
  · next hq => rw [hq]
  · rfl

/-- Orders outside the queue are not touched. -/
theorem Queues.unlink_frame (h : lvl.Queues orders (front ++ o :: behind)) (lvl' : PriceLevel)
    (hq : q ∉ front ++ o :: behind) : (lvl'.unlink orders o).2 q = orders q := by
  obtain ⟨hprev, hnext, hb, hn⟩ := h.neighbours
  have hqo : q ≠ o := fun he => hq (by simp [he])
  have hqb : front.getLast? ≠ some q := fun he => hq (by simp [List.mem_of_getLast? he])
  have hqn : behind.head? ≠ some q := fun he => hq (by simp [List.mem_of_mem_head? he])
  rw [unlink_orders hprev hnext hb hn, if_neg hqo, if_neg hqb, if_neg hqn]

/-- Unlinking keeps the level's price, side and place. -/
theorem unlink_place (lvl : PriceLevel) (orders : Ptr → Order) (o : Ptr) :
    (lvl.unlink orders o).1.priceCents = lvl.priceCents ∧
      (lvl.unlink orders o).1.side = lvl.side ∧
      (lvl.unlink orders o).1.nextLevel = lvl.nextLevel ∧
      (lvl.unlink orders o).1.prevLevel = lvl.prevLevel := by
  unfold unlink
  cases (orders o).prev <;> simp only <;> split <;> exact ⟨rfl, rfl, rfl, rfl⟩

/-- `unlink` takes the order out of the queue, wherever it stands. The shares of the order are not
deducted: the callers do that first. -/
theorem Queues.unlink (h : lvl.Queues orders (front ++ o :: behind))
    (hshares : lvl'.totalShares = UInt64.ofNat (sharesOf orders (front ++ behind)))
    (hhead : lvl'.headOrder = lvl.headOrder) (htail : lvl'.tailOrder = lvl.tailOrder)
    (hcount : lvl'.orderCount = lvl.orderCount) :
    (lvl'.unlink orders o).1.Queues (lvl'.unlink orders o).2 (front ++ behind) := by
  obtain ⟨hprev, hnext, hb, hn⟩ := h.neighbours
  have hdata : ∀ q ∈ front ++ behind,
      ((lvl'.unlink orders o).2 q).toOrderData = (orders q).toOrderData :=
    fun q _ => h.unlink_data lvl' q
  have hother : ∀ y ∈ front ++ behind, y ≠ o := by
    rintro y hy rfl
    have hnodup := List.perm_middle.nodup_iff.mp h.linked.nodup
    exact (List.nodup_cons.mp hnodup).1 hy
  rw [unlink_level hprev hnext hb]
  refine ⟨h.linked.remove (fun y hy => ?_) (fun y hy => ?_), ?_, ?_, ?_, ?_⟩
  · rw [unlink_orders hprev hnext hb hn, if_neg (hother y hy)]
  · rw [unlink_orders hprev hnext hb hn, if_neg (hother y hy)]
  · show (if front.getLast? = none then behind.head? else lvl'.headOrder) = _
    rw [hhead, h.head]
    cases front <;> simp
  · show (if behind.head? = none then front.getLast? else lvl'.tailOrder) = _
    rw [htail, h.tail]
    cases behind <;> simp
  · show lvl'.orderCount - 1 = _
    rw [hcount, h.count]
    simp [← Nat.add_assoc, UInt32.ofNat_add]
  · show lvl'.totalShares = _
    rw [hshares, sharesOf_congr hdata]

/-! ## Taking shares off -/

/-- Taking `filled` shares off an order and off its level. -/
theorem Queues.deduct (h : lvl.Queues orders (front ++ o :: behind)) {filled : Shares}
    (hle : filled ≤ (orders o).sharesRemaining) :
    ({ lvl with totalShares := lvl.totalShares - filled.toUInt64 } : PriceLevel).Queues
      (Function.update orders o
        { orders o with sharesRemaining := (orders o).sharesRemaining - filled })
      (front ++ o :: behind) := by
  have hnodup := List.perm_middle.nodup_iff.mp h.linked.nodup
  have hother : ∀ y ∈ front ++ behind, y ≠ o := by
    rintro y hy rfl
    exact (List.nodup_cons.mp hnodup).1 hy
  have hsame : ∀ os, (∀ y ∈ os, y ≠ o) → sharesOf (Function.update orders o
      { orders o with sharesRemaining := (orders o).sharesRemaining - filled }) os =
        sharesOf orders os := by
    intro os hos
    exact sharesOf_congr fun y hy => by rw [Function.update_of_ne (hos y hy)]
  refine ⟨h.linked.congr fun p _ => ?_, h.head, h.tail, h.count, ?_⟩
  · by_cases hp : p = o
    · subst hp
      simp
    · simp [Function.update_of_ne hp]
  · have hnat : filled.toNat ≤ (orders o).sharesRemaining.toNat := hle
    have hsub : ((orders o).sharesRemaining - filled).toNat =
        (orders o).sharesRemaining.toNat - filled.toNat := UInt32.toNat_sub_of_le _ _ hle
    rw [sharesOf_append, sharesOf_cons, hsame front fun y hy => hother y (by simp [hy]),
      hsame behind fun y hy => hother y (by simp [hy]), Function.update_self, hsub]
    show lvl.totalShares - filled.toUInt64 = _
    rw [h.shares, sharesOf_append, sharesOf_cons, ← UInt64.ofNat_uInt32ToNat,
      ← UInt64.ofNat_sub (by omega)]
    congr 1
    omega

/-- An order without shares can be unlinked from its level as it is. -/
theorem Queues.unlink_spent (h : lvl.Queues orders (front ++ o :: behind))
    (hspent : (orders o).sharesRemaining = 0) :
    (lvl.unlink orders o).1.Queues (lvl.unlink orders o).2 (front ++ behind) := by
  refine h.unlink ?_ rfl rfl rfl
  rw [h.shares, sharesOf_append, sharesOf_cons, sharesOf_append, hspent]
  simp

/-- `unlink_and_deduct` takes the order and its shares out of the level. -/
theorem Queues.unlinkAndDeduct (h : lvl.Queues orders (front ++ o :: behind)) :
    (lvl.unlinkAndDeduct orders o).1.Queues (lvl.unlinkAndDeduct orders o).2 (front ++ behind) := by
  refine h.unlink ?_ rfl rfl rfl
  show lvl.totalShares - (orders o).sharesRemaining.toUInt64 = _
  rw [h.shares, sharesOf_append, sharesOf_cons, sharesOf_append, ← UInt64.ofNat_uInt32ToNat,
    ← UInt64.ofNat_sub (by omega)]
  congr 1
  omega

/-- The order count tells exactly whether a queue is empty, as long as the count does not wrap
around. -/
theorem Queues.empty_iff (h : lvl.Queues orders os) (hlen : os.length < 4294967296) :
    lvl.empty = true ↔ os = [] := by
  unfold PriceLevel.empty
  rw [decide_eq_true_iff, h.count, ← UInt32.toNat_inj, UInt32.toNat_ofNat',
    Nat.mod_eq_of_lt hlen, UInt32.toNat_zero, List.length_eq_zero_iff]

end PriceLevel
end ItchParser
