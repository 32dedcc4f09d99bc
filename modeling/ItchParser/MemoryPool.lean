import ItchParser.Lib.Intrusive
import Mathlib.Data.Fintype.Card
import Mathlib.Data.List.Perm.Subperm
import Mathlib.Data.List.Range

/-!
# MemoryPool: fixed-capacity storage with an intrusive free list

A slot number stands for the slot's address, and `none` for `nullptr`. Slot `i` has address `i + 1`
as a machine word, so the word 0 is the null pointer. The free list runs through the first word of
the free slots: `FreeNode` reads and writes that word as a link, whatever object type the slot is
otherwise used for. A released slot therefore loses its first field, and an acquired one hands its
link over to the caller.

`MemoryPool.Represents` ties a pool to the list of its free slots. A caller that writes to its own
slots keeps it (`Represents.congr`), because no free slot is anyone's own.
-/

namespace ItchParser

open Intrusive

/-- A slot of a pool. There are fewer of them than 64-bit words, because one word is `nullptr`. -/
abbrev Ptr := Fin 18446744073709551615

/-- The slot with the number `n`. -/
def Ptr.ofNat (n : Nat) : Ptr := Fin.ofNat _ n

/-- The machine word of a pointer. -/
def Ptr.toWord : Option Ptr → UInt64
  | none => 0
  | some p => UInt64.ofNat (p.val + 1)

/-- The pointer that a machine word stands for. -/
def Ptr.ofWord (w : UInt64) : Option Ptr :=
  if w = 0 then none
  else some ⟨w.toNat - 1, by have := w.toNat_lt; omega⟩

@[simp] theorem Ptr.ofWord_toWord (p : Option Ptr) : Ptr.ofWord (Ptr.toWord p) = p := by
  cases p with
  | none => rfl
  | some p =>
      have hlt := p.isLt
      have hword : (UInt64.ofNat (p.val + 1)).toNat = p.val + 1 := by
        rw [UInt64.toNat_ofNat']
        omega
      have hne : UInt64.ofNat (p.val + 1) ≠ 0 := by
        intro h
        rw [h] at hword
        simp at hword
      simp only [Ptr.toWord, Ptr.ofWord, hne, ↓reduceIte, Option.some.injEq]
      exact Fin.ext (by simp only [hword]; omega)

/-- A list without a cycle has at most one node for each slot number; the traversal loops take this
as their fuel. -/
def maxNodes : Nat := 18446744073709551615

/-- A list of distinct pointers is within the fuel of the traversals. -/
theorem length_le_maxNodes {xs : List Ptr} (h : xs.Nodup) : xs.length ≤ maxNodes := by
  have hcard := h.length_le_card
  rwa [Fintype.card_fin] at hcard

/-- Applies a field update to the object in slot `p`. -/
def modify {T : Type} (mem : Ptr → T) (p : Ptr) (f : T → T) : Ptr → T :=
  Function.update mem p (f (mem p))

/-- What a write through a pointer does to each slot. -/
theorem modify_apply {T : Type} (mem : Ptr → T) (p q : Ptr) (f : T → T) :
    modify mem p f q = if q = p then f (mem q) else mem q := by
  unfold modify
  rw [Function.update_apply]
  split
  · next h => rw [h]
  · rfl

@[simp] theorem modify_self {T : Type} (mem : Ptr → T) (p : Ptr) (f : T → T) :
    modify mem p f p = f (mem p) := by
  simp [modify]

/-- A write through a pointer leaves the other slots alone. -/
theorem modify_of_ne {T : Type} {mem : Ptr → T} {p q : Ptr} {f : T → T} (h : q ≠ p) :
    modify mem p f q = mem q := by
  rw [modify_apply, if_neg h]

/-- How the first word of an object of type `T` is read and overwritten as `FreeNode::next`. -/
class FreeNode (T : Type) where
  next : T → Option Ptr
  setNext : T → Option Ptr → T
  next_setNext : ∀ t p, next (setNext t p) = p

attribute [simp] FreeNode.next_setNext

/-- The fields `capacity_`, `storage_` and `head_`. -/
structure MemoryPool (T : Type) where
  capacity : UInt64
  storage : Ptr → T
  head : Option Ptr

namespace MemoryPool

variable {T : Type} [FreeNode T]

/-- The link of the free slot `p`. -/
def nextFree (storage : Ptr → T) (p : Ptr) : Option Ptr :=
  FreeNode.next (storage p)

/-- Writes the link of slot `p`. -/
def setLink (storage : Ptr → T) (p : Ptr) (next : Option Ptr) : Ptr → T :=
  Function.update storage p (FreeNode.setNext (storage p) next)

/-- The constructor's loop after `i` iterations: every slot so far points to the slot before it. -/
def buildFreeList (storage : Ptr → T) : Nat → (Ptr → T) × Option Ptr
  | 0 => (storage, none)
  | i + 1 =>
      let (linked, prev) := buildFreeList storage i
      let node := Fin.ofNat _ i
      (setLink linked node prev, some node)

/-- The constructor. The block of raw memory is all default objects before it is linked. -/
def create [Inhabited T] (capacity : UInt64) : MemoryPool T :=
  let (storage, head) := buildFreeList (fun _ => default) capacity.toNat
  ⟨capacity, storage, head⟩

/-- The constructor on a block with arbitrary contents. -/
def createOn (raw : Ptr → T) (capacity : UInt64) : MemoryPool T :=
  let (storage, head) := buildFreeList raw capacity.toNat
  ⟨capacity, storage, head⟩

/-- Takes the first slot off the free list; `none` when the pool is exhausted. -/
def acquire (pool : MemoryPool T) : Option (Ptr × MemoryPool T) :=
  match pool.head with
  | none => none
  | some node => some (node, { pool with head := nextFree pool.storage node })

/-- Puts a slot back at the front of the free list. Releasing `nullptr` does nothing. -/
def release (pool : MemoryPool T) : Option Ptr → MemoryPool T
  | none => pool
  | some node => { pool with storage := setLink pool.storage node pool.head, head := some node }

/-- The free slots in list order. A free list without a cycle is no longer than the pool. -/
def freeList (pool : MemoryPool T) : List Ptr :=
  walk (nextFree pool.storage) pool.capacity.toNat pool.head

/-- Counts the unused slots. -/
def freeCount (pool : MemoryPool T) : Nat :=
  pool.freeList.length

/-- The loop of `free_count`, which has counted `n` nodes and is at `p`. It gives no result when it
has not ended after `fuel` iterations. -/
def countFrom (storage : Ptr → T) : Nat → Option Ptr → Nat → Option Nat
  | _, none, n => some n
  | 0, some _, _ => none
  | fuel + 1, some p, n => countFrom storage fuel (nextFree storage p) (n + 1)

/-- The free list consists of `free`, in this order, and these are exactly the slots that are not
`used`. -/
structure Represents (pool : MemoryPool T) (free : List Ptr) (used : Ptr → Prop) : Prop where
  chain : Chain (nextFree pool.storage) pool.head free
  nodup : free.Nodup
  mem_free : ∀ p, p ∈ free ↔ p.val < pool.capacity.toNat ∧ ¬ used p
  used_lt : ∀ p, used p → p.val < pool.capacity.toNat

variable {pool : MemoryPool T} {free rest : List Ptr} {used used' : Ptr → Prop} {p : Ptr}

/-- Writing a link changes one link. -/
theorem nextFree_setLink (storage : Ptr → T) (p q : Ptr) (next : Option Ptr) :
    nextFree (setLink storage p next) q = if q = p then next else nextFree storage q := by
  unfold nextFree setLink
  rw [Function.update_apply]
  split <;> simp

/-- No more distinct slots exist than the pool has. -/
theorem length_le_of_lt {xs : List Ptr} {n : Nat} (hnodup : xs.Nodup) (hlt : ∀ p ∈ xs, p.val < n) :
    xs.length ≤ n := by
  have hsub : xs.map Fin.val ⊆ List.range n := by
    intro i hi
    obtain ⟨p, hp, rfl⟩ := List.mem_map.mp hi
    exact List.mem_range.mpr (hlt p hp)
  have h := ((hnodup.map Fin.val_injective).subperm hsub).length_le
  simpa using h

/-- Free slots are slots of the pool. -/
theorem Represents.lt_of_mem (h : pool.Represents free used) (hp : p ∈ free) :
    p.val < pool.capacity.toNat :=
  ((h.mem_free p).mp hp).1

/-- A free slot is not in use. -/
theorem Represents.not_used (h : pool.Represents free used) (hp : p ∈ free) : ¬ used p :=
  ((h.mem_free p).mp hp).2

/-- There are no more free slots than slots. -/
theorem Represents.length_le (h : pool.Represents free used) :
    free.length ≤ pool.capacity.toNat :=
  length_le_of_lt h.nodup fun _ => h.lt_of_mem

/-- The free list that a traversal reads. -/
theorem Represents.freeList_eq (h : pool.Represents free used) : pool.freeList = free :=
  h.chain.walk_eq h.length_le

/-- The number of free slots that a traversal counts. -/
theorem Represents.freeCount_eq (h : pool.Represents free used) : pool.freeCount = free.length := by
  rw [freeCount, h.freeList_eq]

/-- The loop over a free list ends and has counted its nodes. -/
theorem countFrom_chain {storage : Ptr → T} {cursor : Option Ptr} {xs : List Ptr}
    (h : Chain (nextFree storage) cursor xs) {fuel : Nat} (hfuel : xs.length ≤ fuel) (n : Nat) :
    countFrom storage fuel cursor n = some (n + xs.length) := by
  induction xs generalizing cursor fuel n with
  | nil =>
      obtain rfl : cursor = none := h
      cases fuel <;> rfl
  | cons x xs ih =>
      obtain ⟨rfl, hrest⟩ := h
      cases fuel with
      | zero => simp at hfuel
      | succ fuel =>
          rw [countFrom, ih hrest (by simpa using hfuel), List.length_cons]
          congr 1
          omega

/-- The pool does not look at the contents of used slots. -/
theorem Represents.congr (h : pool.Represents free used) (storage : Ptr → T)
    (hsame : ∀ p, ¬ used p → storage p = pool.storage p) :
    ({ pool with storage := storage } : MemoryPool T).Represents free used := by
  refine ⟨h.chain.congr fun p hp => ?_, h.nodup, h.mem_free, h.used_lt⟩
  simp only [nextFree, hsame p (h.not_used hp)]

/-- Only the extent of the used slots matters. -/
theorem Represents.congr_used (h : pool.Represents free used) (hused : ∀ p, used' p ↔ used p) :
    pool.Represents free used' := by
  obtain rfl : used' = used := funext fun p => propext (hused p)
  exact h

/-- An exhausted pool gives no slot. -/
theorem Represents.acquire_nil (h : pool.Represents [] used) : pool.acquire = none := by
  have hhead : pool.head = none := h.chain.cursor_eq
  simp [acquire, hhead]

/-- `acquire` takes the first free slot. -/
theorem Represents.acquire_cons (h : pool.Represents (p :: rest) used) :
    pool.acquire = some (p, { pool with head := rest.head? }) := by
  have hhead : pool.head = some p := h.chain.cursor_eq
  have hnext : nextFree pool.storage p = rest.head? := h.chain.2.cursor_eq
  simp [acquire, hhead, hnext]

/-- An acquired slot is used from then on. -/
theorem Represents.acquired (h : pool.Represents (p :: rest) used) :
    ({ pool with head := rest.head? } : MemoryPool T).Represents rest fun q => used q ∨ q = p := by
  have hnodup := List.nodup_cons.mp h.nodup
  refine ⟨?_, hnodup.2, fun q => ?_, fun q hq => ?_⟩
  · show Chain _ rest.head? rest
    have hrest := h.chain.2
    rwa [hrest.cursor_eq] at hrest
  · have hmem := h.mem_free q
    rw [List.mem_cons] at hmem
    constructor
    · intro hq
      obtain ⟨hlt, hnot⟩ := hmem.mp (.inr hq)
      exact ⟨hlt, not_or.mpr ⟨hnot, fun he => hnodup.1 (he ▸ hq)⟩⟩
    · rintro ⟨hlt, hnot⟩
      rw [not_or] at hnot
      exact (hmem.mpr ⟨hlt, hnot.1⟩).resolve_left hnot.2
  · rcases hq with hq | rfl
    · exact h.used_lt q hq
    · exact h.lt_of_mem (by simp)

/-- A released slot heads the free list and is not used any more. -/
theorem Represents.released (h : pool.Represents free used) (hp : used p) :
    (pool.release (some p)).Represents (p :: free) fun q => used q ∧ q ≠ p := by
  have hfresh : p ∉ free := fun hfree => h.not_used hfree hp
  refine ⟨⟨rfl, ?_⟩, List.nodup_cons.mpr ⟨hfresh, h.nodup⟩, fun q => ?_,
    fun q hq => h.used_lt q hq.1⟩
  · show Chain (nextFree (setLink pool.storage p pool.head))
      (nextFree (setLink pool.storage p pool.head) p) free
    rw [nextFree_setLink, if_pos rfl]
    refine h.chain.congr fun q hq => ?_
    rw [nextFree_setLink, if_neg fun he : q = p => hfresh (he ▸ hq)]
  · rw [List.mem_cons, h.mem_free]
    have hlt := h.used_lt p hp
    by_cases hq : q = p
    · simp [hq, hlt, release]
    · simp [hq, release]

/-- The constructor's loop links the first `i` slots in descending order. -/
theorem buildFreeList_chain (storage : Ptr → T) {i : Nat} (hi : i ≤ 18446744073709551615) :
    Chain (nextFree (buildFreeList storage i).1) (buildFreeList storage i).2
      ((List.range i).reverse.map (Fin.ofNat 18446744073709551615)) := by
  induction i with
  | zero => rfl
  | succ i ih =>
      have hlt : i < 18446744073709551615 := by omega
      rw [List.range_succ, List.reverse_append, List.reverse_singleton, List.singleton_append,
        List.map_cons]
      refine ⟨rfl, ?_⟩
      show Chain (nextFree (setLink _ _ _)) (nextFree (setLink _ _ _) _) _
      rw [nextFree_setLink, if_pos rfl]
      refine (ih (by omega)).congr fun p hp => ?_
      obtain ⟨j, hj, rfl⟩ := List.mem_map.mp hp
      have hji : j < i := by simpa using hj
      have hne : Fin.ofNat 18446744073709551615 j ≠ Fin.ofNat _ i := by
        intro he
        have hval := congrArg Fin.val he
        rw [Fin.val_ofNat, Fin.val_ofNat, Nat.mod_eq_of_lt hlt, Nat.mod_eq_of_lt (by omega)] at hval
        omega
      rw [nextFree_setLink, if_neg hne]

/-- A new pool is entirely free, whatever its block held before. -/
theorem createOn_represents (raw : Ptr → T) (capacity : UInt64) :
    (createOn raw capacity).Represents
      ((List.range capacity.toNat).reverse.map (Fin.ofNat 18446744073709551615))
      fun _ => False := by
  have hcap : capacity.toNat ≤ 18446744073709551615 := by have := capacity.toNat_lt; omega
  refine ⟨buildFreeList_chain _ hcap, ?_, fun p => ?_, fun _ h => h.elim⟩
  · rw [List.map_reverse, List.nodup_reverse]
    refine List.Nodup.map_on ?_ List.nodup_range
    intro a ha b hb hab
    rw [List.mem_range] at ha hb
    have hval := congrArg Fin.val hab
    rwa [Fin.val_ofNat, Fin.val_ofNat, Nat.mod_eq_of_lt (by omega), Nat.mod_eq_of_lt (by omega)]
      at hval
  · simp only [List.mem_map, List.mem_reverse, List.mem_range, not_false_eq_true, and_true]
    constructor
    · rintro ⟨i, hi, rfl⟩
      rw [Fin.val_ofNat, Nat.mod_eq_of_lt (by omega)]
      exact hi
    · intro hp
      exact ⟨p.val, hp, Fin.ext (by rw [Fin.val_ofNat, Nat.mod_eq_of_lt p.isLt])⟩

/-- In a new pool all slots are free, the first one at the head. -/
theorem create_represents [Inhabited T] (capacity : UInt64) :
    (create capacity : MemoryPool T).Represents
      ((List.range capacity.toNat).reverse.map (Fin.ofNat 18446744073709551615)) fun _ => False :=
  createOn_represents (fun _ => default) capacity

end MemoryPool
end ItchParser
