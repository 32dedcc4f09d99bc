import Mathlib.Data.List.TakeWhile

/-!
# Waiting lines

A line is a list, front first, whose elements are told apart by keys. `ahead` is what stands in
front of the element with a given key. Elements may leave the line, may change without changing
their keys, and may join at the end. None of this puts anybody in front of an element that stays.
-/

namespace Waiting

variable {α κ : Type*} [DecidableEq κ] {key : α → κ} {k : κ} {line joined : List α}

/-- The part of the line in front of the element with key `k`. -/
def ahead (key : α → κ) (k : κ) (line : List α) : List α :=
  line.takeWhile fun x => key x ≠ k

/-- Joining at the end. -/
theorem ahead_append (hk : ∃ x ∈ line, key x = k) :
    ahead key k (line ++ joined) = ahead key k line := by
  unfold ahead
  rw [List.takeWhile_append, if_neg]
  intro hlength
  obtain ⟨x, hx, hkey⟩ := hk
  rw [(List.takeWhile_sublist _).length_eq.mp hlength |>.symm] at hx
  simpa [hkey] using List.mem_takeWhile_imp hx

/-- Leaving the line, while the element with key `k` stays. -/
theorem ahead_filter {p : α → Bool} (hp : ∀ x ∈ line, key x = k → p x = true) :
    ahead key k (line.filter p) = (ahead key k line).filter p := by
  induction line with
  | nil => rfl
  | cons x line ih =>
      have htail := ih fun y hy => hp y (List.mem_cons_of_mem x hy)
      unfold ahead at htail ⊢
      by_cases hkey : key x = k
      · rw [List.filter_cons_of_pos (hp x List.mem_cons_self hkey)]
        simp [hkey]
      · by_cases hx : p x = true
        · rw [List.filter_cons_of_pos hx, List.takeWhile_cons_of_pos (by simpa using hkey),
            List.takeWhile_cons_of_pos (by simpa using hkey), List.filter_cons_of_pos hx, htail]
        · rw [List.filter_cons_of_neg hx, List.takeWhile_cons_of_pos (by simpa using hkey),
            List.filter_cons_of_neg hx, htail]

/-- Changing without changing keys. -/
theorem ahead_map {f : α → α} (hf : ∀ x, key (f x) = key x) :
    ahead key k (line.map f) = (ahead key k line).map f := by
  unfold ahead
  rw [List.takeWhile_map]
  simp only [Function.comp_def, hf]

end Waiting
