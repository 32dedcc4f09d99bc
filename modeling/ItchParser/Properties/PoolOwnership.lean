import ItchParser.Lib.Machine
import ItchParser.PriceLevel

/-!
# Every slot of a pool has one owner

The free list of a pool lives in the memory that its callers write to. `PoolState` keeps next to a
pool the slots that its callers hold. They may write anything to the slots they hold, and the pool
never reads those: its free list consists of the other slots, in every state of every run.
-/

namespace ItchParser

open Intrusive Machine MemoryPool

/-- A pool and the slots that its callers hold. -/
structure PoolState (T : Type) where
  pool : MemoryPool T
  acquired : List Ptr

/-- A call of the pool, or a caller's write to a slot. -/
inductive PoolCall (T : Type) where
  | acquire
  | release (p : Option Ptr)
  | write (p : Ptr) (object : T)

namespace PoolState

variable {T : Type} [FreeNode T]

/-- A new pool on a block that holds `raw`. -/
def start (raw : Ptr → T) (capacity : UInt64) : PoolState T :=
  ⟨createOn raw capacity, []⟩

/-- What a call does to the pool and to what the caller holds. -/
def step (s : PoolState T) : PoolCall T → PoolState T
  | .acquire =>
      match s.pool.acquire with
      | none => s
      | some (p, pool) => ⟨pool, p :: s.acquired⟩
  | .release none => ⟨s.pool.release none, s.acquired⟩
  | .release (some p) => ⟨s.pool.release (some p), s.acquired.erase p⟩
  | .write p object =>
      ⟨{ s.pool with storage := Function.update s.pool.storage p object }, s.acquired⟩

/-- A caller releases and writes only what it holds. -/
def Allowed (s : PoolState T) : PoolCall T → Prop
  | .acquire | .release none => True
  | .release (some p) | .write p _ => p ∈ s.acquired

instance (s : PoolState T) : (c : PoolCall T) → Decidable (s.Allowed c)
  | .acquire | .release none => inferInstanceAs (Decidable True)
  | .release (some p) | .write p _ => inferInstanceAs (Decidable (p ∈ s.acquired))

/-- Each slot is free or held by one caller. The free list ends and consists of the slots that
nobody holds. `acquire` hands out one of them, and nothing only when all slots are held. The loop of
`free_count` ends with the number of slots that nobody holds. A slot that is given back at once goes
back to its place in the free list. -/
structure OneOwner (s : PoolState T) : Prop where
  distinct : s.acquired.Nodup
  free : ∃ free, s.pool.Represents free (· ∈ s.acquired) ∧
    ∀ p pool, s.pool.acquire = some (p, pool) →
      (pool.release (some p)).Represents free (· ∈ s.acquired)
  fresh : ∀ p pool, s.pool.acquire = some (p, pool) →
    p.val < s.pool.capacity.toNat ∧ p ∉ s.acquired
  exhausted : s.pool.acquire = none ↔ s.acquired.length = s.pool.capacity.toNat
  counted : ∀ fuel, s.pool.capacity.toNat ≤ fuel →
    countFrom s.pool.storage fuel s.pool.head 0 =
      some (s.pool.capacity.toNat - s.acquired.length)

/-- The invariant: the free list consists of the slots that nobody holds. -/
structure Accounts (s : PoolState T) (free : List Ptr) : Prop where
  distinct : s.acquired.Nodup
  represents : s.pool.Represents free (· ∈ s.acquired)

variable {s : PoolState T} {free : List Ptr} {p : Ptr} {pool : MemoryPool T}

/-- At the start all slots are free. -/
theorem start_accounts (raw : Ptr → T) (capacity : UInt64) :
    ∃ free, (start raw capacity).Accounts free :=
  ⟨_, List.nodup_nil, (createOn_represents raw capacity).congr_used fun _ => by simp [start]⟩

/-- What `acquire` returns is the first slot of the free list. -/
theorem Accounts.acquire_eq (h : s.Accounts free) (hacquire : s.pool.acquire = some (p, pool)) :
    ∃ rest, free = p :: rest ∧ pool = { s.pool with head := rest.head? } := by
  cases free with
  | nil =>
      rw [h.represents.acquire_nil] at hacquire
      cases hacquire
  | cons q rest =>
      rw [h.represents.acquire_cons] at hacquire
      cases hacquire
      exact ⟨rest, rfl, rfl⟩

/-- The slots that are free and those that are held are all slots. -/
theorem Accounts.length_add (h : s.Accounts free) :
    free.length + s.acquired.length = s.pool.capacity.toNat := by
  have hdisjoint : ∀ p ∈ free, ∀ q ∈ s.acquired, p ≠ q := by
    rintro p hp q hq rfl
    exact h.represents.not_used hp hq
  have hnodup : ((free ++ s.acquired).map Fin.val).Nodup :=
    (List.nodup_append.mpr ⟨h.represents.nodup, h.distinct, hdisjoint⟩).map Fin.val_injective
  -- both lists together are the numbers below the capacity, each once
  have hperm : ((free ++ s.acquired).map Fin.val).Perm (List.range s.pool.capacity.toNat) := by
    refine (List.perm_ext_iff_of_nodup hnodup List.nodup_range).mpr fun i => ?_
    rw [List.mem_range, List.mem_map]
    constructor
    · rintro ⟨p, hp, rfl⟩
      rcases List.mem_append.mp hp with hp | hp
      · exact h.represents.lt_of_mem hp
      · exact h.represents.used_lt p hp
    · intro hi
      have hlt : i < 18446744073709551615 := hi.trans_le (by
        have := s.pool.capacity.toNat_lt
        omega)
      refine ⟨⟨i, hlt⟩, ?_, rfl⟩
      rw [List.mem_append, h.represents.mem_free]
      by_cases hheld : ⟨i, hlt⟩ ∈ s.acquired
      · exact .inr hheld
      · exact .inl ⟨hi, hheld⟩
  have hlength := hperm.length_eq
  rwa [List.length_map, List.length_append, List.length_range] at hlength

/-! ## What a call does to the accounts -/

/-- An acquired slot changes hands. -/
theorem Accounts.acquire (h : s.Accounts free) : ∃ free', (s.step .acquire).Accounts free' := by
  cases hacquire : s.pool.acquire with
  | none =>
      refine ⟨free, ?_⟩
      simp only [step, hacquire]
      exact h
  | some result =>
      obtain ⟨p, pool⟩ := result
      obtain ⟨rest, rfl, rfl⟩ := h.acquire_eq hacquire
      refine ⟨rest, ?_⟩
      simp only [step, hacquire]
      exact ⟨List.nodup_cons.mpr ⟨h.represents.not_used (by simp), h.distinct⟩,
        h.represents.acquired.congr_used fun q => by rw [List.mem_cons, or_comm]⟩

/-- A released slot changes hands. -/
theorem Accounts.release (h : s.Accounts free) (hp : p ∈ s.acquired) :
    (s.step (.release (some p))).Accounts (p :: free) :=
  ⟨h.distinct.erase p, (h.represents.released hp).congr_used fun q => by
    rw [step, h.distinct.mem_erase_iff, and_comm]⟩

/-- The links of the free list are not in the slots that are held. -/
theorem Accounts.write (h : s.Accounts free) (hp : p ∈ s.acquired) (object : T) :
    (s.step (.write p object)).Accounts free :=
  ⟨h.distinct, h.represents.congr _ fun q hq => by
    have hne : q ≠ p := fun he => hq (he ▸ hp)
    exact Function.update_of_ne hne _ _⟩

/-- A call of the rules keeps the account. -/
theorem Accounts.step (h : s.Accounts free) {c : PoolCall T} (hc : s.Allowed c) :
    ∃ free', (s.step c).Accounts free' := by
  cases c with
  | acquire => exact h.acquire
  | release p =>
      cases p with
      | none => exact ⟨free, h⟩
      | some p => exact ⟨_, h.release hc⟩
  | write p object => exact ⟨free, h.write hc object⟩

/-! ## What the accounts promise -/

/-- Acquiring a slot and releasing it again rebuilds the link that was there. -/
theorem Accounts.restored (h : s.Accounts free) (hacquire : s.pool.acquire = some (p, pool)) :
    (pool.release (some p)).Represents free (· ∈ s.acquired) := by
  obtain ⟨rest, rfl, rfl⟩ := h.acquire_eq hacquire
  have hfree : p ∉ s.acquired := h.represents.not_used (by simp)
  refine (h.represents.acquired.released (.inr rfl)).congr_used fun q => ?_
  constructor
  · exact fun hq => ⟨.inl hq, fun he => hfree (he ▸ hq)⟩
  · rintro ⟨hq, hne⟩
    exact hq.resolve_right hne

/-- By the account every slot has one owner. -/
theorem Accounts.oneOwner (h : s.Accounts free) : s.OneOwner := by
  have htotal := h.length_add
  refine ⟨h.distinct, ⟨free, h.represents, fun p pool => h.restored⟩, fun p pool hacquire => ?_, ?_,
    fun fuel hfuel => ?_⟩
  · obtain ⟨rest, rfl, -⟩ := h.acquire_eq hacquire
    exact ⟨h.represents.lt_of_mem (by simp), h.represents.not_used (by simp)⟩
  · -- the free list is empty exactly when the counts agree
    cases free with
    | nil =>
        rw [List.length_nil, Nat.zero_add] at htotal
        exact ⟨fun _ => htotal, fun _ => h.represents.acquire_nil⟩
    | cons p rest =>
        rw [List.length_cons] at htotal
        constructor
        · intro hnone
          rw [h.represents.acquire_cons] at hnone
          cases hnone
        · intro hall
          omega
  · rw [countFrom_chain h.represents.chain (h.represents.length_le.trans hfuel)]
    congr 1
    omega

/-- In every run each slot has one owner at a time, for every capacity, every type of objects and
every initial contents of the block. -/
theorem one_owner_after (raw : Ptr → T) (capacity : UInt64) (calls : List (PoolCall T))
    (h : Along step Allowed (start raw capacity) calls) :
    (run step (start raw capacity) calls).OneOwner := by
  have hend := (h.invariant (I := fun s : PoolState T => ∃ free, s.Accounts free)
    (Q := fun _ _ => True) (start_accounts raw capacity)
    fun _ _ hs hc => ⟨trivial, hs.elim fun _ haccounts => haccounts.step hc⟩).2
  obtain ⟨free, haccounts⟩ := hend
  exact haccounts.oneOwner

/-- A pool of two slots: one call too many, a write that looks like a link, a slot that is used
again. -/
def sampleCalls : List (PoolCall Order) :=
  [.acquire, .acquire, .acquire, .write (Ptr.ofNat 1) (Order.create 1 2 3 4 .sell 5 MPID.blank),
    .release (some (Ptr.ofNat 0)), .release none, .acquire]

/-- A pool of two slots. -/
theorem one_owner_after_sample :
    Along step Allowed (start (fun _ => default) 2) sampleCalls ∧
      (run step (start (fun _ => default) 2) sampleCalls).OneOwner :=
  ⟨by decide +kernel, one_owner_after (fun _ => default) 2 sampleCalls (by decide +kernel)⟩

end PoolState
end ItchParser
