import Mathlib.Algebra.BigOperators.Group.Finset.Basic
import Mathlib.Algebra.Order.BigOperators.Group.Finset
import Mathlib.Data.List.Basic

/-!
# Linear probing with probe-chain repair

Open-addressing tables of `n` slots without tombstones. A table maps a slot number to the key it
holds. `Valid` is the search invariant: a key lies at the end of an occupied run that starts at its
home slot. Clearing one slot breaks it for the keys further along the run, and `Repairing` is what
holds while those keys are taken out and put back one at a time. `Repairing.step` is the rule for
one such round, and `work` is the measure that each round decreases.
-/

namespace Probing

/-! ## Positions on a cycle of `n` slots -/

/-- The slot `d` places after `h`. -/
def advance (n h d : Nat) : Nat :=
  if h + d < n then h + d else h + d - n

/-- The number of places from `h` forward to `i`. -/
def distance (n h i : Nat) : Nat :=
  if h ≤ i then i - h else i + n - h

variable {n h i j d e : Nat}

/-- Moving on stays in the table. -/
theorem advance_lt (hh : h < n) (hd : d ≤ n) : advance n h d < n := by
  unfold advance; split <;> omega

/-- A distance is less than the size of the table. -/
theorem distance_lt (hh : h < n) (hi : i < n) : distance n h i < n := by
  unfold distance; split <;> omega

@[simp] theorem advance_zero (hh : h < n) : advance n h 0 = h := by
  simp [advance, hh]

/-- Moving on by the distance arrives. -/
theorem advance_distance (hh : h < n) (hi : i < n) : advance n h (distance n h i) = i := by
  unfold advance distance; split <;> split <;> omega

/-- The distance to where one has moved on. -/
theorem distance_advance (hh : h < n) (hd : d < n) : distance n h (advance n h d) = d := by
  unfold advance distance; split <;> split <;> omega

/-- Moving on twice. -/
theorem advance_advance (hh : h < n) (hd : d + e < n) :
    advance n (advance n h d) e = advance n h (d + e) := by
  unfold advance; split <;> split <;> split <;> omega

/-- No distance to where one is. -/
theorem distance_self : distance n h h = 0 := by
  simp [distance]

/-- One place forward from `j` is one place closer to any other slot. -/
theorem distance_succ (hj : j < n) (hi : i < n) (hne : i ≠ j) :
    distance n (advance n j 1) i + 1 = distance n j i := by
  unfold advance distance; split <;> split <;> split <;> omega

/-- Walking from `a` to `i` over `j` is walking from `a` to `j` and on to `i`. -/
theorem distance_add {a : Nat} (ha : a < n) (hj : j < n) (hi : i < n)
    (hpass : distance n a j < distance n a i) :
    distance n a j + distance n j i = distance n a i := by
  revert hpass
  unfold distance
  split_ifs <;> omega

/-- Masking with a power of two minus one wraps the next slot number around. -/
theorem succ_and_mask {m : Nat} (hi : i < 2 ^ m) :
    (i + 1) &&& (2 ^ m - 1) = advance (2 ^ m) i 1 := by
  rw [Nat.and_two_pow_sub_one_eq_mod]
  unfold advance
  split
  · rwa [Nat.mod_eq_of_lt]
  · rw [show i + 1 = 2 ^ m by omega]; simp

/-! ## Tables -/

/-- What each slot holds. Only the slots below `n` matter. -/
abbrev Table (κ : Type*) := Nat → Option κ

variable {κ : Type*}

/-- The `d` slots from `a` on are occupied. -/
def Occupied (n : Nat) (t : Table κ) (a d : Nat) : Prop :=
  ∀ e < d, t (advance n a e) ≠ none

/-- A search for the key `k` from its home slot reaches slot `i`. -/
def Reaches (n : Nat) (home : κ → Nat) (t : Table κ) (k : κ) (i : Nat) : Prop :=
  Occupied n t (home k) (distance n (home k) i)

/-- Every key occurs in at most one slot. -/
def Distinct (n : Nat) (t : Table κ) : Prop :=
  ∀ i < n, ∀ j < n, ∀ k, t i = some k → t j = some k → i = j

/-- The invariant of linear probing. -/
structure Valid (n : Nat) (home : κ → Nat) (t : Table κ) : Prop where
  distinct : Distinct n t
  reaches : ∀ i < n, ∀ k, t i = some k → Reaches n home t k i

/-- The state of a repair that has reached slot `j`: a key that a search would miss lies on the
occupied run from `j`. -/
structure Repairing (n : Nat) (home : κ → Nat) (t : Table κ) (j : Nat) : Prop where
  distinct : Distinct n t
  pending : ∀ i < n, ∀ k, t i = some k → ¬ Reaches n home t k i → Occupied n t j (distance n j i)

variable {home : κ → Nat} {t t' : Table κ} {k : κ} {a z : Nat}

/-- Filling slots keeps runs occupied. -/
theorem Occupied.mono (ho : Occupied n t a d) (hsub : ∀ x, t x ≠ none → t' x ≠ none) :
    Occupied n t' a d :=
  fun e he => hsub _ (ho e he)

/-- From any slot there is a first empty slot, if there is one at all. -/
theorem exists_first_empty (ha : a < n) (hempty : ∃ i < n, t i = none) :
    ∃ d < n, Occupied n t a d ∧ t (advance n a d) = none := by
  classical
  obtain ⟨i, hi, hti⟩ := hempty
  have hex : ∃ d, t (advance n a d) = none :=
    ⟨distance n a i, by rwa [advance_distance ha hi]⟩
  refine ⟨Nat.find hex, ?_, fun e he => Nat.find_min hex he, Nat.find_spec hex⟩
  exact (Nat.find_le (by rwa [advance_distance ha hi])).trans_lt (distance_lt ha hi)

/-- Splitting the slot `j` off the front of an occupied run. -/
theorem Occupied.tail (hj : j < n) (hi : i < n) (hne : i ≠ j)
    (ho : Occupied n t j (distance n j i)) :
    Occupied n t (advance n j 1) (distance n (advance n j 1) i) := by
  intro e he
  have hdist := distance_succ hj hi hne
  have hlt := distance_lt hj hi
  rw [advance_advance hj (by omega), Nat.add_comm]
  exact ho (e + 1) (by omega)

/-- A run that passes over slot `j` covers everything from `j` to its end. -/
theorem Occupied.from (ha : a < n) (hj : j < n) (hi : i < n)
    (hpass : distance n a j < distance n a i) (ho : Occupied n t a (distance n a i)) :
    Occupied n t j (distance n j i) := by
  intro e he
  have hlt := distance_lt ha hi
  have hsum := distance_add ha hj hi hpass
  have hstep : advance n j e = advance n a (distance n a j + e) := by
    rw [← advance_advance ha (by omega), advance_distance ha hj]
  rw [hstep]
  exact ho _ (by omega)

/-- The run behind slot `j` does not come back to `j`. -/
theorem advance_tail_ne (hj : j < n) (hi : i < n) (hne : i ≠ j)
    (he : e < distance n (advance n j 1) i) : advance n (advance n j 1) e ≠ j := by
  have hdist := distance_succ hj hi hne
  have hlt := distance_lt hj hi
  rw [advance_advance hj (by omega)]
  intro hback
  have hzero := distance_advance hj (show 1 + e < n by omega)
  rw [hback, distance_self] at hzero
  omega

/-- If only slot `j` was emptied and a search for `k` no longer reaches `i`, the search used to
pass over `j`, so the run from `j` to `i` was occupied. -/
theorem Reaches.passes (hhome : home k < n) (hj : j < n) (hi : i < n)
    (hreach : Reaches n home t k i) (hlost : ¬ Reaches n home t' k i)
    (hkeep : ∀ x, x ≠ j → t x ≠ none → t' x ≠ none) : Occupied n t j (distance n j i) := by
  obtain ⟨e, he, hnone⟩ : ∃ e < distance n (home k) i, t' (advance n (home k) e) = none := by
    simpa [Reaches, Occupied] using hlost
  have hat : advance n (home k) e = j := by
    by_contra hne
    exact hkeep _ hne (hreach e he) hnone
  have hlt := distance_lt hhome hi
  have hpass : distance n (home k) j < distance n (home k) i := by
    rwa [← hat, distance_advance hhome (by omega)]
  exact Occupied.from hhome hj hi hpass hreach

/-- The run behind an emptied slot survives. -/
theorem Occupied.behind (hj : j < n) (hi : i < n) (hne : i ≠ j)
    (ho : Occupied n t j (distance n j i)) (hkeep : ∀ x, x ≠ j → t x ≠ none → t' x ≠ none) :
    Occupied n t' (advance n j 1) (distance n (advance n j 1) i) :=
  fun e he => hkeep _ (advance_tail_ne hj hi hne he) (ho.tail hj hi hne e he)

/-! ## Insertion, removal and repair -/

/-- Adding a key that is in no slot keeps keys distinct. -/
theorem Distinct.fill (hd : Distinct n t) (hnew : ∀ i < n, t i ≠ some k) :
    Distinct n (Function.update t z (some k)) := by
  intro i hi j hj k' hki hkj
  simp only [Function.update_apply] at hki hkj
  split_ifs at hki hkj with hiz hjz hjz
  · rw [hiz, hjz]
  · cases hki; exact absurd hkj (hnew j hj)
  · cases hkj; exact absurd hki (hnew i hi)
  · exact hd i hi j hj k' hki hkj

/-- Emptying a slot keeps keys distinct. -/
theorem Distinct.empty (hd : Distinct n t) : Distinct n (Function.update t z none) := by
  intro i hi j hj k' hki hkj
  simp only [Function.update_apply] at hki hkj
  split_ifs at hki hkj
  exact hd i hi j hj k' hki hkj

/-- Filling a slot frees no other slot. -/
theorem update_some_ne_none {x : Nat} (hx : t x ≠ none) :
    Function.update t z (some k) x ≠ none := by
  rw [Function.update_apply]; split <;> simp [hx]

/-- Putting a new key into the empty slot that its search reaches. -/
theorem Valid.insert (hv : Valid n home t) (hnew : ∀ i < n, t i ≠ some k)
    (hreach : Reaches n home t k z) : Valid n home (Function.update t z (some k)) := by
  refine ⟨hv.distinct.fill hnew, fun i hi k' hk' => ?_⟩
  rw [Function.update_apply] at hk'
  split_ifs at hk' with hiz
  · cases hk'
    rw [hiz]
    exact Occupied.mono hreach fun _ => update_some_ne_none
  · exact Occupied.mono (hv.reaches i hi k' hk') fun _ => update_some_ne_none

variable (hhome : ∀ k, home k < n)
include hhome

/-- Emptying slot `i` starts a repair at the slot behind it. -/
theorem Valid.clear (hv : Valid n home t) (hi : i < n) :
    Repairing n home (Function.update t i none) (advance n i 1) := by
  refine ⟨hv.distinct.empty, fun x hx k' hk' hlost => ?_⟩
  rw [Function.update_apply] at hk'
  split_ifs at hk' with hxi
  have hkeep : ∀ y, y ≠ i → t y ≠ none → Function.update t i none y ≠ none := by
    intro y hy hne
    rwa [Function.update_of_ne hy]
  exact ((hv.reaches x hx k' hk').passes (hhome k') hi hx hlost hkeep).behind hi hx hxi hkeep

/-- One round of the repair: the key of slot `j` is taken out and put back into the first empty
slot `z` that its search reaches. -/
theorem Repairing.step (hr : Repairing n home t j) (hj : j < n) (hk : t j = some k)
    (hreach : Reaches n home (Function.update t j none) k z) :
    Repairing n home (Function.update (Function.update t j none) z (some k)) (advance n j 1) := by
  have hnew : ∀ i < n, Function.update t j none i ≠ some k := by
    intro i hi hik
    rw [Function.update_apply] at hik
    split_ifs at hik with hij
    exact hij (hr.distinct i hi j hj k hik hk)
  refine ⟨hr.distinct.empty.fill hnew, fun x hx k' hk' hlost => ?_⟩
  rw [Function.update_apply] at hk'
  split_ifs at hk' with hxz
  · cases hk'
    rw [hxz] at hlost
    exact absurd (Occupied.mono hreach fun _ => update_some_ne_none) hlost
  · rw [Function.update_apply] at hk'
    split_ifs at hk' with hxj
    have hkeep : ∀ y, y ≠ j → t y ≠ none →
        Function.update (Function.update t j none) z (some k) y ≠ none := by
      intro y hy hne
      exact update_some_ne_none (by rwa [Function.update_of_ne hy])
    -- either the search already failed before this round, or it passed over `j`
    have hrun : Occupied n t j (distance n j x) := by
      by_cases hbefore : Reaches n home t k' x
      · exact hbefore.passes (hhome k') hj hx hlost hkeep
      · exact hr.pending x hx k' hk' hbefore
    exact hrun.behind hj hx hxj hkeep

omit hhome in
/-- The repair is over when it meets an empty slot. -/
theorem Repairing.done (hr : Repairing n home t j) (hj : j < n) (hempty : t j = none) :
    Valid n home t := by
  refine ⟨hr.distinct, fun i hi k' hk' => ?_⟩
  by_contra hlost
  have hrun := hr.pending i hi k' hk' hlost
  have hne : i ≠ j := by
    rintro rfl
    rw [hempty] at hk'
    cases hk'
  have hpos := distance_succ hj hi hne
  have hzero := hrun 0 (by omega)
  rw [advance_zero hj] at hzero
  exact hzero hempty

omit hhome

/-- A table whose keys all come from a list shorter than the table has an empty slot. -/
theorem exists_empty (hd : Distinct n t) (keys : List κ)
    (hkeys : ∀ i < n, ∀ k, t i = some k → k ∈ keys) (hshort : keys.length < n) :
    ∃ i < n, t i = none := by
  classical
  by_contra hfull
  have hsome : ∀ i < n, ∃ k, t i = some k := fun i hi =>
    Option.ne_none_iff_exists'.mp fun hi' => hfull ⟨i, hi, hi'⟩
  have hmaps : Set.MapsTo t (Finset.range n) (keys.toFinset.image some) := by
    intro i hi
    obtain ⟨k, hk⟩ := hsome i (Finset.mem_range.mp hi)
    exact Finset.mem_image.mpr ⟨k, List.mem_toFinset.mpr (hkeys i (Finset.mem_range.mp hi) k hk),
      hk.symm⟩
  have hinj : Set.InjOn t (Finset.range n) := by
    intro i hi j hj hij
    obtain ⟨k, hk⟩ := hsome i (Finset.mem_range.mp hi)
    exact hd i (Finset.mem_range.mp hi) j (Finset.mem_range.mp hj) k hk (hij ▸ hk)
  have hcard := Finset.card_le_card_of_injOn t hmaps hinj
  have himage := Finset.card_image_le (s := keys.toFinset) (f := (some : κ → Option κ))
  have hlist := List.toFinset_card_le keys
  rw [Finset.card_range] at hcard
  omega

/-! ## Termination of the repair -/

/-- How far the keys lie from their home slots, in total. -/
def work (n : Nat) (home : κ → Nat) (t : Table κ) : Nat :=
  ∑ i ∈ Finset.range n, (t i).elim 0 fun k => distance n (home k) i

/-- Putting a key into an empty slot adds its distance from home. -/
theorem work_fill (hz : z < n) (hempty : t z = none) :
    work n home (Function.update t z (some k)) = work n home t + distance n (home k) z := by
  unfold work
  rw [← Finset.add_sum_erase _ _ (Finset.mem_range.mpr hz),
    ← Finset.add_sum_erase (Finset.range n) (fun i => (t i).elim 0 _) (Finset.mem_range.mpr hz),
    Function.update_self, hempty]
  have hrest : ∀ i ∈ (Finset.range n).erase z,
      ((Function.update t z (some k) i).elim 0 fun k => distance n (home k) i)
        = (t i).elim 0 fun k => distance n (home k) i := by
    intro i hi
    rw [Function.update_of_ne (Finset.ne_of_mem_erase hi)]
  rw [Finset.sum_congr rfl hrest]
  simp only [Option.elim]
  omega

/-- A round that moves a key brings it closer to home. -/
theorem work_step (hhome : home k < n) (hj : j < n) (hz : z < n) (hne : z ≠ j) (hk : t j = some k)
    (hempty : Function.update t j none z = none)
    (hreach : Reaches n home (Function.update t j none) k z) :
    work n home (Function.update (Function.update t j none) z (some k)) < work n home t := by
  have hback : Function.update (Function.update t j none) j (some k) = t := by
    rw [Function.update_idem, ← hk, Function.update_eq_self]
  have hbefore : work n home (Function.update (Function.update t j none) j (some k)) =
      work n home (Function.update t j none) + distance n (home k) j :=
    work_fill hj (Function.update_self j none t)
  rw [hback] at hbefore
  rw [work_fill hz hempty, hbefore]
  -- the search stops at `z` before it comes to the emptied slot `j`
  have hcloser : distance n (home k) z < distance n (home k) j := by
    by_contra hge
    rcases Nat.lt_or_eq_of_le (Nat.le_of_not_lt hge) with hlt | heq
    · have hocc := hreach _ hlt
      rw [advance_distance hhome hj, Function.update_self] at hocc
      exact hocc rfl
    · apply hne
      rw [← advance_distance hhome hz, ← heq, advance_distance hhome hj]
  omega

/-- The measure is bounded by the size of the table alone. -/
theorem work_le (hhome : ∀ k, home k < n) : work n home t ≤ n * n := by
  unfold work
  refine (Finset.sum_le_card_nsmul _ _ n fun i hi => ?_).trans (by simp)
  cases t i with
  | none => exact Nat.zero_le _
  | some k => exact (distance_lt (hhome k) (Finset.mem_range.mp hi)).le

end Probing
