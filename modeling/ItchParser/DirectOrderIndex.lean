import Mathlib.Data.List.AList
import ItchParser.PriceLevel

/-!
# DirectOrderIndex: orders by reference number

The model of the class in `MatchingEngine.hpp`. An id selects a slot of the array by its low 25
bits. A slot holds a pointer only, so the id of its order is read from the order memory, and an
order that finds its slot taken goes to the overflow map under its full id.
-/

namespace ItchParser

/-- The members `slots_`, `overflow_`, `count_` and `collisions_`. The last one is a `size_t` that
only grows, by one with a call at most (`MatchingEngine.counters_le_calls`). -/
structure DirectOrderIndex where
  slots : UInt64 → Option Ptr
  overflow : AList fun _ : OrderReferenceNumber => Ptr
  count : UInt64
  collisions : Nat

namespace DirectOrderIndex

/-- `1u << 25`. -/
def kCapacity : UInt64 := 33554432

/-- The low 25 bits. -/
def kMask : UInt64 := kCapacity - 1

/-- The array slot of an id. -/
def slotOf (id : OrderReferenceNumber) : UInt64 :=
  id &&& kMask

/-- An empty index. -/
def create : DirectOrderIndex :=
  ⟨fun _ => none, ∅, 0, 0⟩

/-- Adds an order; `false` for a duplicate. -/
def insert (ix : DirectOrderIndex) (orders : Ptr → Order) (id : OrderReferenceNumber) (o : Ptr) :
    DirectOrderIndex × Bool :=
  match ix.slots (slotOf id) with
  | none =>
      ({ ix with slots := Function.update ix.slots (slotOf id) (some o), count := ix.count + 1 },
        true)
  | some p =>
      if (orders p).orderId = id then (ix, false)
      else if (ix.overflow.lookup id).isSome then (ix, false)
      else
        ({ ix with
            overflow := ix.overflow.insert id o
            count := ix.count + 1
            collisions := ix.collisions + 1 }, true)

/-- The array first, then the overflow map. -/
def find (ix : DirectOrderIndex) (orders : Ptr → Order) (id : OrderReferenceNumber) : Option Ptr :=
  match ix.slots (slotOf id) with
  | some p => if (orders p).orderId = id then some p else ix.overflow.lookup id
  | none => ix.overflow.lookup id

/-- The part of `erase` that looks at the overflow map. -/
def eraseOverflow (ix : DirectOrderIndex) (id : OrderReferenceNumber) : DirectOrderIndex × Bool :=
  if (ix.overflow.lookup id).isSome then
    ({ ix with overflow := ix.overflow.erase id, count := ix.count - 1 }, true)
  else (ix, false)

/-- Removes an id; `true` if it was present. -/
def erase (ix : DirectOrderIndex) (orders : Ptr → Order) (id : OrderReferenceNumber) :
    DirectOrderIndex × Bool :=
  match ix.slots (slotOf id) with
  | some p =>
      if (orders p).orderId = id then
        ({ ix with slots := Function.update ix.slots (slotOf id) none, count := ix.count - 1 },
          true)
      else ix.eraseOverflow id
  | none => ix.eraseOverflow id

/-- `clear` keeps the number of collisions. -/
def clear (ix : DirectOrderIndex) : DirectOrderIndex :=
  { ix with slots := fun _ => none, overflow := ∅, count := 0 }

/-- The number of orders in the overflow map. -/
def overflowSize (ix : DirectOrderIndex) : Nat :=
  ix.overflow.entries.length

/-! ## Return values

These hold of any index, whatever its slots and its overflow map hold. -/

section Results

variable {ix : DirectOrderIndex} {orders : Ptr → Order} {id : OrderReferenceNumber} {o : Ptr}

/-- The id is in the overflow map and its array slot is empty. -/
def Hidden (ix : DirectOrderIndex) (id : OrderReferenceNumber) : Prop :=
  ix.slots (slotOf id) = none ∧ (ix.overflow.lookup id).isSome

/-- An id that is found is turned away, unless it is hidden. -/
theorem insert_found (hfound : (ix.find orders id).isSome) (hhidden : ¬ ix.Hidden id) :
    ix.insert orders id o = (ix, false) := by
  unfold find at hfound
  unfold Hidden at hhidden
  unfold insert
  cases hs : ix.slots (slotOf id) with
  | none =>
      rw [hs] at hfound
      exact absurd ⟨hs, hfound⟩ hhidden
  | some p =>
      simp only [hs] at hfound
      simp only
      split
      · rfl
      · next hne =>
          rw [if_neg hne] at hfound
          rw [if_pos hfound]

/-- A hidden id is found and inserted all the same. -/
theorem insert_hidden (hhidden : ix.Hidden id) :
    (ix.find orders id).isSome ∧ (ix.insert orders id o).2 = true := by
  obtain ⟨hslot, hover⟩ := hhidden
  unfold find insert
  rw [hslot]
  exact ⟨hover, rfl⟩

/-- `erase` reports whether the id was in the index. -/
theorem erase_result : (ix.erase orders id).2 = (ix.find orders id).isSome := by
  have hover : (ix.eraseOverflow id).2 = (ix.overflow.lookup id).isSome := by
    unfold eraseOverflow
    split
    · next h => exact h.symm
    · next h => exact (Bool.eq_false_iff.mpr h).symm
  unfold erase find
  split
  · split
    · rfl
    · exact hover
  · exact hover

/-- Erasing an id that is not in the index changes nothing. -/
theorem erase_missing (hmissing : ix.find orders id = none) : ix.erase orders id = (ix, false) := by
  have hover : ix.overflow.lookup id = none → ix.eraseOverflow id = (ix, false) := fun h => by
    unfold eraseOverflow
    rw [h]
    rfl
  unfold find at hmissing
  unfold erase
  split
  · next p hs =>
      simp only [hs] at hmissing
      split
      · next hid =>
          rw [if_pos hid] at hmissing
          cases hmissing
      · next hid =>
          rw [if_neg hid] at hmissing
          exact hover hmissing
  · next hs =>
      rw [hs] at hmissing
      exact hover hmissing

end Results

/-! ## The finite map an index stands for -/

/-- The index holds exactly the orders `live`, each once, under its own id. -/
structure Represents (ix : DirectOrderIndex) (orders : Ptr → Order) (live : List Ptr) : Prop where
  distinct : (live.map fun p => (orders p).orderId).Nodup
  slot_sound : ∀ i p, ix.slots i = some p → p ∈ live ∧ slotOf (orders p).orderId = i
  overflow_sound : ∀ id p, ix.overflow.lookup id = some p → p ∈ live ∧ (orders p).orderId = id
  complete : ∀ p ∈ live, ix.slots (slotOf (orders p).orderId) = some p ∨
    ix.overflow.lookup (orders p).orderId = some p
  exclusive : ∀ p, ix.slots (slotOf (orders p).orderId) = some p →
    ix.overflow.lookup (orders p).orderId = none
  count_eq : ix.count = UInt64.ofNat live.length

variable {ix : DirectOrderIndex} {orders orders' : Ptr → Order} {live : List Ptr} {p q : Ptr}
  {id : OrderReferenceNumber}

/-- Two live orders with the same id are the same order. -/
theorem Represents.eq_of_id (h : ix.Represents orders live) (hp : p ∈ live) (hq : q ∈ live)
    (hid : (orders p).orderId = (orders q).orderId) : p = q :=
  List.inj_on_of_nodup_map h.distinct hp hq hid

/-- A new index is empty. -/
theorem create_represents (orders : Ptr → Order) : create.Represents orders [] := by
  refine ⟨List.nodup_nil, fun i p hp => ?_, fun id p hp => ?_, fun p hp => ?_, fun p hp => ?_, rfl⟩
  · cases hp
  · rw [create, AList.lookup_empty] at hp
    cases hp
  · cases hp
  · cases hp

/-- `clear` forgets all orders. -/
theorem clear_represents (ix : DirectOrderIndex) (orders : Ptr → Order) :
    ix.clear.Represents orders [] := by
  refine ⟨List.nodup_nil, fun i p hp => ?_, fun id p hp => ?_, fun p hp => ?_, fun p hp => ?_, rfl⟩
  · cases hp
  · rw [clear, AList.lookup_empty] at hp
    cases hp
  · cases hp
  · cases hp

/-- The index reads the ids of the live orders only. -/
theorem Represents.congr (h : ix.Represents orders live)
    (hid : ∀ p ∈ live, (orders' p).orderId = (orders p).orderId) : ix.Represents orders' live := by
  refine ⟨?_, fun i p hp => ?_, fun id p hp => ?_, fun p hp => ?_, fun p hp => ?_, h.count_eq⟩
  · rw [List.map_congr_left hid]
    exact h.distinct
  · obtain ⟨hmem, hslot⟩ := h.slot_sound i p hp
    exact ⟨hmem, by rw [hid p hmem, hslot]⟩
  · obtain ⟨hmem, hover⟩ := h.overflow_sound id p hp
    exact ⟨hmem, by rw [hid p hmem, hover]⟩
  · rw [hid p hp]
    exact h.complete p hp
  · have hmem := (h.slot_sound _ p hp).1
    rw [hid p hmem] at hp ⊢
    exact h.exclusive p hp

/-- `find` returns the live order with the id. -/
theorem Represents.find_some (h : ix.Represents orders live) :
    ix.find orders id = some p ↔ p ∈ live ∧ (orders p).orderId = id := by
  have hover : ∀ q, ix.overflow.lookup id = some q → (some q = some p ↔
      p ∈ live ∧ (orders p).orderId = id) := by
    intro q hq
    obtain ⟨hmem, hid⟩ := h.overflow_sound id q hq
    constructor
    · rintro ⟨⟩
      exact ⟨hmem, hid⟩
    · rintro ⟨hp, hpid⟩
      rw [h.eq_of_id hp hmem (hpid.trans hid.symm)]
  have hmiss : ix.slots (slotOf id) ≠ some p → ix.overflow.lookup id = none →
      ¬ (p ∈ live ∧ (orders p).orderId = id) := by
    rintro hslot hnone ⟨hp, rfl⟩
    rcases h.complete p hp with hs | ho
    · exact hslot hs
    · rw [hnone] at ho
      cases ho
  unfold find
  cases hs : ix.slots (slotOf id) with
  | none =>
      simp only
      cases hl : ix.overflow.lookup id with
      | none => simpa using hmiss (by rw [hs]; simp) hl
      | some q => exact hover q hl
  | some q =>
      obtain ⟨hmem, _⟩ := h.slot_sound _ q hs
      simp only
      split
      · next hid =>
          constructor
          · rintro ⟨⟩
            exact ⟨hmem, hid⟩
          · rintro ⟨hp, hpid⟩
            rw [h.eq_of_id hp hmem (hpid.trans hid.symm)]
      · next hid =>
          cases hl : ix.overflow.lookup id with
          | none =>
              have hslot : ix.slots (slotOf id) ≠ some p ∨ ¬ (orders p).orderId = id := by
                by_cases hqp : q = p
                · exact .inr (hqp ▸ hid)
                · exact .inl (by rw [hs]; simpa using hqp)
              rcases hslot with hslot | hslot
              · simpa using hmiss hslot hl
              · simp [hslot]
          | some q' => exact hover q' hl

/-- `find` fails exactly on the ids that no live order has. -/
theorem Represents.find_none (h : ix.Represents orders live) :
    ix.find orders id = none ↔ ∀ p ∈ live, (orders p).orderId ≠ id := by
  constructor
  · intro hnone p hp hid
    rw [h.find_some.mpr ⟨hp, hid⟩] at hnone
    cases hnone
  · intro hnone
    cases hf : ix.find orders id with
    | none => rfl
    | some p =>
        obtain ⟨hp, hid⟩ := h.find_some.mp hf
        exact absurd hid (hnone p hp)

/-- The overflow map holds no id that is not live. -/
theorem Represents.lookup_fresh (h : ix.Represents orders live)
    (hfresh : ∀ q ∈ live, (orders q).orderId ≠ id) : ix.overflow.lookup id = none := by
  cases hl : ix.overflow.lookup id with
  | none => rfl
  | some q =>
      obtain ⟨hq, hqid⟩ := h.overflow_sound id q hl
      exact absurd hqid (hfresh q hq)

/-- A fresh id keeps the ids distinct. -/
theorem Represents.distinct_append (h : ix.Represents orders live) (hid : (orders p).orderId = id)
    (hfresh : ∀ q ∈ live, (orders q).orderId ≠ id) :
    ((live ++ [p]).map fun q => (orders q).orderId).Nodup := by
  rw [List.map_append, List.map_singleton, List.nodup_append]
  refine ⟨h.distinct, List.nodup_singleton _, fun a ha b hb => ?_⟩
  obtain ⟨q, hq, rfl⟩ := List.mem_map.mp ha
  rw [List.mem_singleton.mp hb, hid]
  exact hfresh q hq

/-- The counter goes up with a new order. -/
theorem Represents.count_append (h : ix.Represents orders live) (p : Ptr) :
    ix.count + 1 = UInt64.ofNat (live ++ [p]).length := by
  rw [h.count_eq, List.length_append, List.length_singleton, UInt64.ofNat_add]
  rfl

/-- A new order goes to its array slot when that is empty. -/
theorem Represents.fillSlot (h : ix.Represents orders live) (hid : (orders p).orderId = id)
    (hfresh : ∀ q ∈ live, (orders q).orderId ≠ id) (hslot : ix.slots (slotOf id) = none) :
    { ix with
      slots := Function.update ix.slots (slotOf id) (some p)
      count := ix.count + 1 }.Represents orders (live ++ [p]) := by
  refine ⟨h.distinct_append hid hfresh, fun i q hq => ?_, fun id' q hq => ?_, fun q hq => ?_,
    fun q hq => ?_, h.count_append p⟩
  · simp only [Function.update_apply] at hq
    split at hq
    · next hi =>
        cases hq
        exact ⟨by simp, by rw [hid, hi]⟩
    · obtain ⟨hmem, hi⟩ := h.slot_sound i q hq
      exact ⟨by simp [hmem], hi⟩
  · obtain ⟨hmem, hqid⟩ := h.overflow_sound id' q hq
    exact ⟨by simp [hmem], hqid⟩
  · simp only [Function.update_apply]
    rcases List.mem_append.mp hq with hq | hq
    · rcases h.complete q hq with hc | hc
      · split
        · next hi =>
            rw [hi, hslot] at hc
            cases hc
        · exact .inl hc
      · exact .inr hc
    · rw [List.mem_singleton.mp hq, hid]
      simp
  · simp only [Function.update_apply] at hq
    split at hq
    · cases hq
      show ix.overflow.lookup (orders p).orderId = none
      rw [hid, h.lookup_fresh hfresh]
    · exact h.exclusive q hq

/-- A new order goes to the overflow map otherwise. -/
theorem Represents.fillOverflow (h : ix.Represents orders live) (hid : (orders p).orderId = id)
    (hfresh : ∀ q ∈ live, (orders q).orderId ≠ id) (collisions : Nat) :
    { ix with
      overflow := ix.overflow.insert id p
      count := ix.count + 1
      collisions := collisions }.Represents orders (live ++ [p]) := by
  refine ⟨h.distinct_append hid hfresh, fun i q hq => ?_, fun id' q hq => ?_, fun q hq => ?_,
    fun q hq => ?_, h.count_append p⟩
  · obtain ⟨hmem, hi⟩ := h.slot_sound i q hq
    exact ⟨by simp [hmem], hi⟩
  · by_cases hi : id' = id
    · subst hi
      rw [AList.lookup_insert] at hq
      cases hq
      exact ⟨by simp, hid⟩
    · rw [AList.lookup_insert_ne hi] at hq
      obtain ⟨hmem, hqid⟩ := h.overflow_sound id' q hq
      exact ⟨by simp [hmem], hqid⟩
  · rcases List.mem_append.mp hq with hq | hq
    · rw [AList.lookup_insert_ne (hfresh q hq)]
      exact h.complete q hq
    · rw [List.mem_singleton.mp hq, hid, AList.lookup_insert]
      exact .inr rfl
  · obtain ⟨hmem, _⟩ := h.slot_sound _ q hq
    show (ix.overflow.insert id p).lookup (orders q).orderId = none
    rw [AList.lookup_insert_ne (hfresh q hmem)]
    exact h.exclusive q hq

/-- `insert` adds an order whose id is not live. -/
theorem Represents.insert (h : ix.Represents orders live) (hid : (orders p).orderId = id)
    (hfresh : ∀ q ∈ live, (orders q).orderId ≠ id) :
    (ix.insert orders id p).2 = true ∧
      (ix.insert orders id p).1.Represents orders (live ++ [p]) := by
  unfold DirectOrderIndex.insert
  cases hs : ix.slots (slotOf id) with
  | none => exact ⟨rfl, h.fillSlot hid hfresh hs⟩
  | some q₀ =>
      obtain ⟨hmem₀, _⟩ := h.slot_sound _ q₀ hs
      simp only [if_neg (hfresh q₀ hmem₀), h.lookup_fresh hfresh, Option.isSome_none,
        Bool.false_eq_true, ↓reduceIte, true_and]
      exact h.fillOverflow hid hfresh _

/-- The other live orders have other ids. -/
theorem Represents.id_ne (h : ix.Represents orders live) (hp : p ∈ live)
    (hid : (orders p).orderId = id) (hq : q ∈ live.filter fun q => q ≠ p) :
    q ∈ live ∧ (orders q).orderId ≠ id := by
  obtain ⟨hq', hne⟩ := List.mem_filter.mp hq
  refine ⟨hq', fun he => ?_⟩
  rw [h.eq_of_id hq' hp (he.trans hid.symm)] at hne
  simp at hne

/-- Taking an order out keeps the ids distinct. -/
theorem Represents.distinct_filter (h : ix.Represents orders live) (p : Ptr) :
    ((live.filter fun q => q ≠ p).map fun q => (orders q).orderId).Nodup :=
  h.distinct.sublist (List.filter_sublist.map _)

/-- The counter goes down with an order that leaves. -/
theorem Represents.count_filter (h : ix.Represents orders live) (hp : p ∈ live) :
    ix.count - 1 = UInt64.ofNat (live.filter fun q => q ≠ p).length := by
  have hlen := Intrusive.length_filter_ne (h.distinct.of_map _) hp
  rw [h.count_eq, ← hlen, UInt64.ofNat_add]
  simp

/-- A live order that is not in its array slot is taken out of the overflow map. -/
theorem Represents.eraseOverflow (h : ix.Represents orders live) (hp : p ∈ live)
    (hid : (orders p).orderId = id) (hslot : ix.slots (slotOf id) ≠ some p) :
    (ix.eraseOverflow id).1.Represents orders (live.filter fun q => q ≠ p) := by
  have hl : ix.overflow.lookup id = some p := by
    rw [← hid] at hslot ⊢
    exact (h.complete p hp).resolve_left hslot
  have hmem : ∀ q, q ∈ live → q ≠ p → q ∈ live.filter fun q => q ≠ p := fun q hq hne =>
    List.mem_filter.mpr ⟨hq, by simpa using hne⟩
  unfold DirectOrderIndex.eraseOverflow
  rw [if_pos (by simp [hl])]
  refine ⟨h.distinct_filter p, fun i q hq => ?_, fun id' q hq => ?_, fun q hq => ?_, fun q hq => ?_,
    h.count_filter hp⟩
  · obtain ⟨hq', hi⟩ := h.slot_sound i q hq
    refine ⟨hmem q hq' fun he => hslot ?_, hi⟩
    rw [← hid, ← he, hi]
    exact hq
  · by_cases hi : id' = id
    · rw [hi, AList.lookup_erase] at hq
      cases hq
    · rw [AList.lookup_erase_ne hi] at hq
      obtain ⟨hq', hqid⟩ := h.overflow_sound id' q hq
      refine ⟨hmem q hq' fun he => hi ?_, hqid⟩
      rw [← hqid, he, hid]
  · obtain ⟨hq', hne⟩ := h.id_ne hp hid hq
    rw [AList.lookup_erase_ne hne]
    exact h.complete q hq'
  · show (ix.overflow.erase id).lookup (orders q).orderId = none
    by_cases hqid : (orders q).orderId = id
    · rw [hqid, AList.lookup_erase]
    · rw [AList.lookup_erase_ne hqid]
      exact h.exclusive q hq

/-- A live order in its array slot is taken out there. -/
theorem Represents.emptySlot (h : ix.Represents orders live) (hp : p ∈ live)
    (hid : (orders p).orderId = id) (hslot : ix.slots (slotOf id) = some p) :
    { ix with
      slots := Function.update ix.slots (slotOf id) none
      count := ix.count - 1 }.Represents orders (live.filter fun q => q ≠ p) := by
  have hmem : ∀ q, q ∈ live → q ≠ p → q ∈ live.filter fun q => q ≠ p := fun q hq hne =>
    List.mem_filter.mpr ⟨hq, by simpa using hne⟩
  refine ⟨h.distinct_filter p, fun i q hq => ?_, fun id' q hq => ?_, fun q hq => ?_, fun q hq => ?_,
    h.count_filter hp⟩
  · simp only [Function.update_apply] at hq
    split at hq
    · cases hq
    · next hi =>
        obtain ⟨hq', hqi⟩ := h.slot_sound i q hq
        exact ⟨hmem q hq' fun he => hi (by rw [← hqi, he, hid]), hqi⟩
  · obtain ⟨hq', hqid⟩ := h.overflow_sound id' q hq
    refine ⟨hmem q hq' ?_, hqid⟩
    rintro rfl
    have hnone := h.exclusive q (by rw [hid]; exact hslot)
    rw [hqid, hq] at hnone
    cases hnone
  · obtain ⟨hq', hne⟩ := h.id_ne hp hid hq
    simp only [Function.update_apply]
    rcases h.complete q hq' with hc | hc
    · split
      · next hi =>
          rw [hi, hslot] at hc
          cases hc
          exact absurd hid hne
      · exact .inl hc
    · exact .inr hc
  · simp only [Function.update_apply] at hq
    split at hq
    · cases hq
    · exact h.exclusive q hq

/-- `erase` takes a live order out. -/
theorem Represents.erase (h : ix.Represents orders live) (hp : p ∈ live)
    (hid : (orders p).orderId = id) :
    (ix.erase orders id).1.Represents orders (live.filter fun q => q ≠ p) := by
  unfold DirectOrderIndex.erase
  cases hs : ix.slots (slotOf id) with
  | none => exact h.eraseOverflow hp hid (by rw [hs]; simp)
  | some q =>
      obtain ⟨hq, _⟩ := h.slot_sound _ q hs
      simp only
      split
      · next hqid =>
          obtain rfl : q = p := h.eq_of_id hq hp (hqid.trans hid.symm)
          exact h.emptySlot hp hid hs
      · next hqid =>
          refine h.eraseOverflow hp hid ?_
          rw [hs]
          rintro ⟨⟩
          exact hqid hid

end DirectOrderIndex
end ItchParser
