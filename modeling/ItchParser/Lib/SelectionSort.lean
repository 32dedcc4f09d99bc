import Mathlib.Data.Fintype.Basic
import Mathlib.Data.List.FinRange
import Mathlib.Data.List.OfFn
import Mathlib.Logic.Equiv.Basic

/-!
# Selection sort

The sort that swaps the first greatest of the remaining elements to the front, on an array as a
function of its indices. The result is a rearrangement in which nothing is greater than what stands
in front of it.
-/

namespace SelectionSort

variable {α : Type*} {n : Nat}

/-- A comparison by which nothing is greater than itself, and which can be weakened to an order. -/
structure Weak (gt : α → α → Prop) : Prop where
  asymm : ∀ {a b}, gt a b → ¬ gt b a
  trans : ∀ {a b c}, ¬ gt a b → ¬ gt b c → ¬ gt a c

/-- Nothing is greater than itself. -/
theorem Weak.irrefl {gt : α → α → Prop} (h : Weak gt) (a : α) : ¬ gt a a :=
  fun hgt => h.asymm hgt hgt

section

variable (gt : α → α → Prop) [DecidableRel gt]

/-- The scan over the indices `js`: `best` moves on to every greater element. -/
def scan (rows : Fin n → α) (best : Fin n) (js : List (Fin n)) : Fin n :=
  js.foldl (fun best j => if gt (rows j) (rows best) then j else best) best

/-- The indices behind `i`. -/
def behind (i : Fin n) : List (Fin n) :=
  (List.finRange n).filter fun j => i < j

/-- One iteration of the outer loop. -/
def select (rows : Fin n → α) (i : Fin n) : Fin n → α :=
  let best := scan gt rows i (behind i)
  if best ≠ i then rows ∘ Equiv.swap i best else rows

/-- The outer loop over all places. -/
def sort (rows : Fin n → α) : Fin n → α :=
  (List.finRange n).foldl (select gt) rows

end

variable {gt : α → α → Prop} [DecidableRel gt] {rows : Fin n → α} {i best : Fin n}
  {js : List (Fin n)}

/-! ## The scan -/

/-- The scan ends at one of the places it has seen. -/
theorem scan_mem (gt : α → α → Prop) [DecidableRel gt] (rows : Fin n → α) (best : Fin n)
    (js : List (Fin n)) : scan gt rows best js ∈ best :: js := by
  induction js generalizing best with
  | nil => exact List.mem_singleton.mpr rfl
  | cons j js ih =>
      show scan gt rows (if gt (rows j) (rows best) then j else best) js ∈ _
      split
      · exact List.mem_cons_of_mem _ (ih j)
      · rcases List.mem_cons.mp (ih best) with h | h
        · rw [h]
          exact List.mem_cons_self
        · exact List.mem_cons_of_mem _ (List.mem_cons_of_mem _ h)

/-- Nothing scanned is greater than the result. -/
theorem scan_greatest (hgt : Weak gt) :
    ∀ j ∈ best :: js, ¬ gt (rows j) (rows (scan gt rows best js)) := by
  induction js generalizing best with
  | nil =>
      intro j hj
      rw [List.mem_singleton.mp hj]
      exact hgt.irrefl _
  | cons k js ih =>
      show ∀ j ∈ _, ¬ gt (rows j) (rows (scan gt rows (if gt (rows k) (rows best) then k else best)
        js))
      by_cases hk : gt (rows k) (rows best)
      · rw [if_pos hk]
        intro j hj
        rcases List.mem_cons.mp hj with rfl | hj
        · exact hgt.trans (hgt.asymm hk) (ih k List.mem_cons_self)
        · exact ih j hj
      · rw [if_neg hk]
        intro j hj
        rcases List.mem_cons.mp hj with rfl | hj
        · exact ih _ List.mem_cons_self
        · rcases List.mem_cons.mp hj with rfl | hj
          · exact hgt.trans hk (ih best List.mem_cons_self)
          · exact ih j (List.mem_cons_of_mem _ hj)

/-- The places behind `i`. -/
theorem mem_behind {j : Fin n} : j ∈ behind i ↔ i < j := by
  simp [behind]

/-! ## The outer loop -/

/-- An iteration swaps `i` with an index from `i` on that holds the greatest of the rest. -/
theorem select_eq (hgt : Weak gt) (rows : Fin n → α) (i : Fin n) : ∃ best, i ≤ best ∧
    (∀ j, i ≤ j → ¬ gt (rows j) (rows best)) ∧ select gt rows i = rows ∘ Equiv.swap i best := by
  refine ⟨scan gt rows i (behind i), ?_, fun j hj => ?_, ?_⟩
  · rcases List.mem_cons.mp (scan_mem gt rows i (behind i)) with h | h
    · exact h.ge
    · exact (mem_behind.mp h).le
  · refine scan_greatest hgt j ?_
    rcases hj.eq_or_lt with rfl | hlt
    · exact List.mem_cons_self
    · exact List.mem_cons_of_mem _ (mem_behind.mpr hlt)
  · unfold select
    by_cases h : scan gt rows i (behind i) = i
    · simp [h]
    · exact if_pos h

/-- Up to the index `k` the array is in order, and nothing behind is greater. -/
def SortedTo (gt : α → α → Prop) (rows : Fin n → α) (k : Nat) : Prop :=
  ∀ a b : Fin n, a.val < k → a < b → ¬ gt (rows b) (rows a)

/-- One more element is in order. -/
theorem SortedTo.select (hgt : Weak gt) (h : SortedTo gt rows i.val) :
    SortedTo gt (select gt rows i) (i.val + 1) := by
  obtain ⟨best, hbest, hgreatest, heq⟩ := select_eq hgt rows i
  rw [heq]
  -- the swap stays within the indices from `i` on
  have hswap : ∀ b, i ≤ b → i ≤ Equiv.swap i best b := by
    intro b hb
    by_cases hbi : b = i
    · rw [hbi, Equiv.swap_apply_left]
      exact hbest
    · by_cases hbb : b = best
      · rw [hbb, Equiv.swap_apply_right]
      · rwa [Equiv.swap_apply_of_ne_of_ne hbi hbb]
  intro a b ha hab
  simp only [Function.comp_apply]
  rcases (Nat.lt_succ_iff.mp ha).lt_or_eq with hlt | heq
  · -- `a` is in the sorted part, which the swap does not touch
    have hai : a ≠ i := fun he => by rw [he] at hlt; omega
    have habest : a ≠ best := fun he => by rw [he] at hlt; omega
    rw [Equiv.swap_apply_of_ne_of_ne hai habest]
    refine h a _ hlt ?_
    by_cases hb : i ≤ b
    · exact lt_of_lt_of_le (Fin.lt_def.mpr hlt) (hswap b hb)
    · have hbi : b < i := not_le.mp hb
      rwa [Equiv.swap_apply_of_ne_of_ne hbi.ne (hbi.trans_le hbest).ne]
  · obtain rfl := Fin.ext heq
    rw [Equiv.swap_apply_left]
    exact hgreatest _ (hswap b hab.le)

/-- The iterations keep the elements. -/
theorem foldl_select_perm (hgt : Weak gt) (is : List (Fin n)) (rows : Fin n → α) :
    (List.ofFn (is.foldl (SelectionSort.select gt) rows)).Perm (List.ofFn rows) := by
  induction is generalizing rows with
  | nil => exact List.Perm.refl _
  | cons i is ih =>
      obtain ⟨best, -, -, heq⟩ := select_eq hgt rows i
      refine (ih _).trans ?_
      rw [heq]
      exact Equiv.Perm.ofFn_comp_perm _ _

/-- Sorting keeps the elements. -/
theorem sort_perm (hgt : Weak gt) (rows : Fin n → α) :
    (List.ofFn (sort gt rows)).Perm (List.ofFn rows) :=
  foldl_select_perm hgt _ rows

/-- After `k` rounds the first `k` places are final. -/
theorem sortedTo_foldl (hgt : Weak gt) (rows : Fin n → α) (k : Nat) (hk : k ≤ n) :
    SortedTo gt (((List.finRange n).take k).foldl (SelectionSort.select gt) rows) k := by
  induction k with
  | zero => exact fun a b ha => absurd ha (Nat.not_lt_zero _)
  | succ k ih =>
      have hlt : k < (List.finRange n).length := by rw [List.length_finRange]; omega
      rw [List.take_succ_eq_append_getElem hlt, List.foldl_append, List.foldl_cons, List.foldl_nil]
      have hget : (List.finRange n)[k] = ⟨k, by omega⟩ := by simp
      rw [hget]
      exact SortedTo.select (i := ⟨k, by omega⟩) hgt (ih (by omega))

/-- Nothing is greater than what stands in front of it. -/
theorem sort_pairwise (hgt : Weak gt) (rows : Fin n → α) :
    (List.ofFn (sort gt rows)).Pairwise fun a b => ¬ gt b a := by
  have h := sortedTo_foldl hgt rows n (Nat.le_refl n)
  rw [List.take_of_length_le (List.length_finRange).le] at h
  exact List.pairwise_ofFn.mpr fun a b hab => h a b a.isLt hab

/-! ## The elements up to the first that fails -/

/-- When no element that passes stands behind one that fails, the first ones are all that pass. -/
theorem takeWhile_eq_filter (p : α → Bool) {xs : List α}
    (h : xs.Pairwise fun a b => p b = true → p a = true) : xs.takeWhile p = xs.filter p := by
  induction xs with
  | nil => rfl
  | cons x xs ih =>
      obtain ⟨hx, hxs⟩ := List.pairwise_cons.mp h
      by_cases hp : p x = true
      · rw [List.takeWhile_cons_of_pos hp, List.filter_cons_of_pos hp, ih hxs]
      · rw [List.takeWhile_cons_of_neg hp, List.filter_cons_of_neg hp, eq_comm,
          List.filter_eq_nil_iff]
        exact fun y hy hpy => hp (hx y hy hpy)

end SelectionSort
