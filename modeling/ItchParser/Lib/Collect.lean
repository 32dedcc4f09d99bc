import Mathlib.Data.List.Basic

/-!
# Loops that collect the first results

A loop over a list that skips the elements without a result and stops collecting after `n` results,
with the results so far and their number as its state.
-/

namespace Collect

variable {α β : Type*}

/-- One iteration. -/
def collect (n : Nat) (f : α → Option β) (state : Nat × List β) (x : α) : Nat × List β :=
  if state.1 ≥ n then state
  else
    match f x with
    | none => state
    | some y => (state.1 + 1, state.2 ++ [y])

/-- The loop appends what is left of the limit. -/
theorem foldl_collect_from (n : Nat) (f : α → Option β) (xs : List α) (shown : Nat)
    (out : List β) : (xs.foldl (collect n f) (shown, out)).2 =
      out ++ (xs.filterMap f).take (n - shown) := by
  induction xs generalizing shown out with
  | nil => simp
  | cons x xs ih =>
      rw [List.foldl_cons, collect]
      by_cases hfull : shown ≥ n
      · rw [if_pos hfull, ih, Nat.sub_eq_zero_of_le hfull, List.take_zero, List.take_zero]
      · rw [if_neg hfull]
        cases hx : f x with
        | none =>
            simp only
            rw [ih, List.filterMap_cons_none hx]
        | some y =>
            simp only
            rw [ih, List.filterMap_cons_some hx, show n - shown = n - (shown + 1) + 1 by omega,
              List.take_succ_cons, List.append_assoc]
            rfl

/-- The loop ends with the first `n` results. -/
theorem foldl_collect (n : Nat) (f : α → Option β) (xs : List α) :
    (xs.foldl (collect n f) (0, [])).2 = (xs.filterMap f).take n := by
  rw [foldl_collect_from, List.nil_append, Nat.sub_zero]

/-- The results are those of the elements with a property. -/
theorem filterMap_ite (p : α → Prop) [DecidablePred p] (f : α → β) (xs : List α) :
    (xs.filterMap fun x => if p x then some (f x) else none) =
      (xs.filter fun x => p x).map f := by
  induction xs with
  | nil => rfl
  | cons x xs ih =>
      by_cases hx : p x <;> simp [hx, ih]

end Collect
